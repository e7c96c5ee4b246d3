import ProtoJava.Proofs.Naming.Collisions
import ProtoJava.Proofs.Naming.Identifiers

/-! # Spellings of class names

Classes for types and unions are named by identifiers, since names in schemas are. A converter, a
wrapper and a holder of extensions are named after a text that need not be such a name: that of a
file, or what a mark was taken off. Their names are identifiers just where that text is a stem.
-/

namespace ProtoJava

namespace Schema

open Naming (isName)

/-- A message of a proper name, as are those of its fields and oneofs. -/
@[mk_iff]
structure Message.Named (m : Message) : Prop where
  name : isName m.name.toList
  fields : ∀ f ∈ m.fields, isName f.name.toList
  oneofs : ∀ o ∈ m.oneofs, isName o.name.toList

/-- A file in which types have proper names, whatever the file itself is called. -/
@[mk_iff]
structure File.Named (f : File) : Prop where
  messages : ∀ m ∈ f.messages, m.Named
  enums : ∀ e ∈ f.enums, isName e.name.toList

instance (m : Message) : Decidable m.Named :=
  decidable_of_iff' _ (Message.named_iff m)

instance (f : File) : Decidable f.Named :=
  decidable_of_iff' _ (File.named_iff f)

variable {f : File} {i : Nat}

theorem File.Named.message (h : f.Named) (hi : i < f.messages.length) : (f.message i).Named :=
  h.messages _ (File.message_mem hi)

theorem File.Named.enumType (h : f.Named) (hi : i < f.enums.length) :
    isName (f.enumType i).name.toList :=
  h.enums _ (File.enumType_mem hi)

end Schema

namespace Naming

open Java (isIdentifier isIdentifierStart isIdentifierPart isIdentifier_iff)
open Schema (File Message Field Oneof Graph MessageId EnumId)

/-- A text that becomes an identifier when a name is put after it. -/
def isStem (cs : List Char) : Bool :=
  cs.all isIdentifierPart && !cs.head?.any Char.isDigit

section Stems

variable {s t : String} {c : Char} {cs : List Char}

theorem isIdentifierStart_toUpper (c : Char) :
    isIdentifierStart c.toUpper = isIdentifierStart c := by
  by_cases h : c.isLower
  · have halpha := isAlpha_of_isLower h
    simp [isIdentifierStart, halpha, isAlpha_toUpper halpha]
  · rw [toUpper_of_not_isLower h]

theorem isDigit_toUpper (c : Char) : c.toUpper.isDigit = c.isDigit := by
  by_cases h : c.isLower
  · have := of_isWord (p := fun c => !c.isLower || !c.toUpper.isDigit && !c.isDigit)
      (by decide) (isWord_of_isLower h)
    simp_all
  · rw [toUpper_of_not_isLower h]

theorem isIdentifierPart_toUpper (c : Char) : isIdentifierPart c.toUpper = isIdentifierPart c := by
  rw [isIdentifierPart, isIdentifierPart, isIdentifierStart_toUpper, isDigit_toUpper]

/-- Pascal case drops no characters but underscores, and only raises others. -/
theorem all_isIdentifierPart_camelFrom (inWord : Bool) :
    (camelFrom inWord cs).all isIdentifierPart = cs.all isIdentifierPart := by
  induction cs generalizing inWord with
  | nil => rfl
  | cons c cs ih =>
    unfold camelFrom
    split_ifs with hw hu hd
    · rw [List.all_cons, List.all_cons, ih]
    · obtain ⟨rfl, -⟩ : c = '_' ∧ startsLower cs := by simpa using hu
      rw [ih]
      rfl
    · rw [List.all_cons, List.all_cons, ih]
    · rw [List.all_cons, List.all_cons, ih, isIdentifierPart_toUpper]

theorem camelChars_cons (hc : c ≠ '_') :
    camelChars (c :: cs) =
      if c.isDigit then c :: camelFrom false cs else c.toUpper :: camelFrom true cs := by
  rw [camelChars_of_ne hc]
  simp [camelFrom, hc]

/-- Pascal case of a stem is a stem of letters, underscores and dollar signs in front. -/
theorem camelChars_stem :
    (camelChars cs).all isIdentifierPart && (camelChars cs).head?.all isIdentifierStart ↔
      isStem cs := by
  cases cs with
  | nil => exact Iff.rfl
  | cons c cs =>
    by_cases hc : c = '_'
    · subst hc
      simp [camelChars, isStem, all_isIdentifierPart_camelFrom, isIdentifierPart, isIdentifierStart]
    rw [camelChars_cons hc]
    by_cases hd : c.isDigit
    · have hstart : isIdentifierStart c = false := by
        have := of_isWord (p := fun c => !c.isDigit || !isIdentifierStart c) (by decide)
          (show isWord c by simp [isWord, Char.isAlphanum, hd])
        simpa [hd] using this
      simp [hd, isStem, hstart]
    · simp only [hd, Bool.false_eq_true, if_false, isStem, List.all_cons, List.head?_cons,
        Option.all_some, Option.any_some, all_isIdentifierPart_camelFrom, isIdentifierPart,
        isIdentifierStart_toUpper, isDigit_toUpper, Bool.or_false, Bool.not_false, Bool.and_true,
        Bool.and_eq_true]
      tauto

/-- Pascal case with a name after it is an identifier just if it is made of a stem. -/
theorem isIdentifier_camel_append (ht : isName t.toList) :
    isIdentifier (camel s ++ t).toList ↔ isStem s.toList := by
  obtain ⟨hstart, hparts⟩ := isIdentifier_iff.mp (isIdentifier_of_isName ht)
  rw [← camelChars_stem, isIdentifier_iff, String.toList_append, camel, String.toList_ofList,
    List.forall_mem_append, and_iff_left hparts, Bool.and_eq_true, List.all_eq_true, and_comm]
  refine and_congr_right fun _ => ?_
  cases camelChars s.toList with
  | nil => simpa using hstart
  | cons c cs => simp

theorem isIdentifier_numbered {n : Nat} (hs : s ≠ "") :
    isIdentifier (s ++ toString n).toList ↔ isIdentifier s.toList := by
  have hdigits : ∀ c ∈ (toString n).toList, isIdentifierPart c := by
    intro c hc
    rw [isIdentifierPart, Text.isDigit_of_mem_nat hc, Bool.or_true]
  rw [isIdentifier_iff, isIdentifier_iff, String.toList_append, List.forall_mem_append,
    and_iff_left hdigits]
  cases hcs : s.toList with
  | nil => exact absurd (String.toList_eq_nil_iff.mp hcs) hs
  | cons c cs => simp

theorem IsVariant.isIdentifier_iff (h : IsVariant s t) (hs : s ≠ "") :
    isIdentifier t.toList ↔ isIdentifier s.toList := by
  rcases h with rfl | ⟨n, rfl⟩
  · exact Iff.rfl
  · exact isIdentifier_numbered hs

end Stems

section Classes

variable {f : File} {layout : Layout} {i k : Nat} {is : List Nat}

theorem isName_messageRequests (hf : f.Named) (h : ∀ i ∈ is, i < f.messages.length) :
    ∀ request ∈ messageRequests f is, isName request.2.toList := by
  intro request hr
  obtain ⟨i, hi, rfl⟩ := List.mem_map.mp hr
  exact (hf.message (h i (List.mem_of_mem_filter hi))).name

theorem isName_enumRequests (hf : f.Named) (h : ∀ i ∈ is, i < f.enums.length) :
    ∀ request ∈ enumRequests f is, isName request.2.toList := by
  intro request hr
  obtain ⟨i, hi, rfl⟩ := List.mem_map.mp hr
  exact hf.enumType (h i hi)

theorem isName_unionRequests {o : Oneof} (ho : isName o.name.toList) :
    ∀ request ∈ unionRequests o, isName request.2.toList := by
  intro request hr
  unfold unionRequests at hr
  split at hr
  · exact absurd hr List.not_mem_nil
  · simp only [List.mem_cons, List.not_mem_nil, or_false] at hr
    rcases hr with rfl | rfl
    · exact isName_camel ho
    · exact isName_suffix (isName_camel ho) (by decide)

theorem isName_wrapperRequest {m : Message} {field : Field} (hm : m.Named)
    (hf : isName field.name.toList) :
    ∀ request ∈ wrapperRequest m field, isName request.2.toList := by
  intro request hr
  unfold wrapperRequest at hr
  split at hr
  · next o hu =>
    rw [List.mem_singleton] at hr
    subst hr
    have ho := hm.oneofs o (Schema.Message.mem_oneofs_of_union? hu).1
    exact isName_suffix (isName_camel ho) (isWord_of_isName (isName_camel hf))
  · exact absurd hr List.not_mem_nil

theorem isName_scopeRequests (hl : f.Linked) (hf : f.Named) (hi : i < f.messages.length) :
    ∀ request ∈ scopeRequests f i, isName request.2.toList := by
  have hm := hf.message hi
  intro request hr
  simp only [scopeRequests, List.mem_append, List.mem_flatMap] at hr
  rcases hr with ((hr | hr) | ⟨o, ho, hr⟩) | ⟨field, hx, hr⟩
  · exact isName_messageRequests hf (fun j hj => ((hl.mem_nested_iff hi).mp hj).1) request hr
  · exact isName_enumRequests hf (fun j hj => ((hl.mem_enums_iff hi).mp hj).1) request hr
  · exact isName_unionRequests (hm.oneofs o ho) request hr
  · exact isName_wrapperRequest hm (hm.fields field hx) request hr

/-- Outside all messages a class is asked for by the name of a type, or by one that is made of the
name of the file. -/
theorem topRequests_cases {request : ClassRole × String} (hf : f.Named)
    (h : request ∈ topRequests layout f) :
    request.1.isType ∧ isName request.2.toList ∨
      request.1.isType = false ∧ ∃ t, isName t.toList ∧ request.2 = camel f.baseName ++ t := by
  simp only [topRequests, List.mem_append] at h
  rcases h with ((h | h) | h) | h
  · refine Or.inl ⟨?_, isName_messageRequests hf ?_ _ h⟩
    · obtain ⟨_, -, rfl⟩ := List.mem_map.mp h
      rfl
    · exact fun j hj => (File.mem_topMessages_iff.mp hj).1
  · refine Or.inl ⟨?_, isName_enumRequests hf ?_ _ h⟩
    · obtain ⟨_, -, rfl⟩ := List.mem_map.mp h
      rfl
    · exact fun j hj => (File.mem_topEnums_iff.mp hj).1
  · split at h
    · exact absurd h List.not_mem_nil
    · obtain rfl := List.mem_singleton.mp h
      exact Or.inr ⟨rfl, "Extensions", by decide, rfl⟩
  · cases layout with
    | type => exact absurd h List.not_mem_nil
    | file =>
      obtain rfl := List.mem_singleton.mp h
      exact Or.inr ⟨rfl, "Beans", by decide, rfl⟩

theorem isName_scopeOf (hl : f.Linked) (hf : f.Named) (hk : k < f.messages.length) :
    ∀ entry ∈ (Classes.of layout f).scopeOf (some k), isName entry.2.toList := by
  rw [Classes.scopeOf_some hk]
  exact Registry.grant_of_numbered isName_numbered (isName_scopeRequests hl hf hk)

theorem isName_types (hl : f.Linked) (hf : f.Named) {role : ClassRole} (ht : role.isType)
    {x : String} (h : (role, x) ∈ (Classes.of layout f).types) : isName x.toList := by
  obtain ⟨p, name, hp, hm, hv⟩ := Classes.exists_request h
  apply hv.of_numbered isName_numbered
  cases p with
  | none =>
    rcases topRequests_cases hf hm with ⟨-, hn⟩ | ⟨he, -⟩
    · exact hn
    · exact absurd ht (by simp [he])
  | some k => exact isName_scopeRequests hl hf (hp k rfl) _ hm

theorem isName_typeName (hl : f.Linked) (hf : f.Named) {role : ClassRole} (ht : role.isType)
    {declared : String} (hd : isName declared.toList) :
    isName (((Classes.of layout f).types.lookup role).getD declared).toList := by
  cases h : (Classes.of layout f).types.lookup role with
  | none => exact hd
  | some x =>
    obtain ⟨before, after, he, -⟩ := List.lookup_eq_some_iff.mp h
    have hmem : (role, x) ∈ (Classes.of layout f).types := by simp [he]
    exact isName_types hl hf ht hmem

theorem isName_messageName (hl : f.Linked) (hf : f.Named) (hi : i < f.messages.length) :
    isName (messageName f (Classes.of layout f).types i).toList :=
  isName_typeName hl hf rfl (hf.message hi).name

theorem isName_enumName (hl : f.Linked) (hf : f.Named) (hi : i < f.enums.length) :
    isName (enumName f (Classes.of layout f).types i).toList :=
  isName_typeName hl hf rfl (hf.enumType hi)

/-- The classes of a message and of its unions are called by names. -/
theorem isName_classNames (hl : f.Linked) (hf : f.Named) (hi : i < f.messages.length)
    (methods : List (ConverterRole × String)) :
    ∀ name ∈ (messageNames f (Classes.of layout f) methods i).classNames, isName name.toList := by
  have hm := hl.message_numbered hi
  have hinner : ∀ role ∈ innerRoles f i,
      isName (nameFor ((Classes.of layout f).scopeOf (some i)) role).toList := by
    intro role hr
    refine isName_nameFor (isName_scopeOf hl hf hi) ?_
    rw [Classes.scopeOf_some hi, Registry.grant_roles]
    exact mem_scopeRequests hm hr
  intro name hn
  rcases List.mem_cons.mp hn with rfl | hn
  · dsimp only [messageNames]
    exact isName_messageName hl hf hi
  · obtain ⟨u, hu, hn⟩ := List.mem_flatMap.mp hn
    obtain ⟨o, ho, rfl⟩ := List.mem_map.mp hu
    unfold unionNames at hn
    split at hn
    · exact absurd hn List.not_mem_nil
    · next hs =>
      have hrole : ∀ role ∈ [.iface o.index, .caseEnum o.index] ++
          (unionMembers (f.message i) o).flatMap fun f => [.variant f.index],
          role ∈ innerRoles f i := by
        intro role hr
        refine List.mem_append_right _ (List.mem_flatMap.mpr ⟨o, ?_, hr⟩)
        exact List.mem_filter.mpr ⟨ho, by simpa using hs⟩
      simp only [Option.map_some, Option.getD_some, Bean.unionClassNames, List.mem_cons,
        List.mem_map] at hn
      rcases hn with rfl | rfl | ⟨v, ⟨field, hfield, rfl⟩, rfl⟩
      · exact hinner _ (hrole _ (by simp))
      · exact hinner _ (hrole _ (by simp))
      · exact hinner _ (hrole _ (by simpa using ⟨field, hfield, rfl⟩))

end Classes

section Files

variable {raws : List Descriptor.File} {g : Graph} {i : Nat}

/-- A class that is asked for by a name after the Pascal case of a text is called by an identifier
just if that text is a stem. -/
theorem isIdentifier_iff_isStem {s t x : String} (ht : isName t.toList)
    (h : IsVariant (camel s ++ t) x) : isIdentifier x.toList ↔ isStem s.toList := by
  have hne : camel s ++ t ≠ "" := by
    intro he
    rw [(String.append_eq_empty_iff.mp he).2] at ht
    exact absurd ht (by decide)
  rw [h.isIdentifier_iff hne, isIdentifier_camel_append ht]

/-- A class that is no type and in no message has a name made of the name of the file. -/
theorem lookup_top_isIdentifier_iff {layout : Layout} {f : File} (hf : f.Named) {role : ClassRole}
    (hr : role.isType = false) {x : String} (h : (Classes.of layout f).top.lookup role = some x) :
    isIdentifier x.toList ↔ isStem f.baseName.toList := by
  obtain ⟨before, after, he, -⟩ := List.lookup_eq_some_iff.mp h
  have hmem : (role, x) ∈ (Classes.of layout f).top := by simp [he]
  obtain ⟨name, hm, hv⟩ := Registry.grant_isVariant hmem
  rcases topRequests_cases hf hm with ⟨ht, -⟩ | ⟨-, t, ht, rfl⟩
  · exact absurd ht (by simp [hr])
  · exact isIdentifier_iff_isStem ht hv

/-- Names of classes are identifiers, apart from those of a converter, a wrapper and a holder of
extensions that are not made of a stem. -/
theorem classNames_identifiers (hg : Graph.build raws = .ok g) (o : Options) (generate : List Nat)
    (hi : i < g.files.length) (hf : (g.file i).Named) :
    let n := (allocate o g generate).file i
    (isIdentifier n.converterClass.toList ↔
      isStem (dropProtobufMark (converterBase (g.file i)).toList)) ∧
    (∀ name ∈ n.wrapperClass.toList ++ n.extensionsClass.toList,
      (isIdentifier name.toList ↔ isStem (g.file i).baseName.toList)) ∧
    ∀ name ∈ n.messages.flatMap MessageNames.classNames ++ n.enums.map (·.className),
      isIdentifier name.toList := by
  have hl := Graph.build_linked hg i
  obtain ⟨package, converter, hm, hn⟩ := allocate_file o generate hi
  dsimp only
  rw [hn]
  refine ⟨?converter, ?derived, ?types⟩
  case converter =>
    have hstem := isIdentifier_iff_isStem (by decide) (converter_isVariant hm)
    rwa [String.toList_ofList] at hstem
  case derived =>
    intro name hname
    rw [List.mem_append, Option.mem_toList, Option.mem_toList] at hname
    rcases hname with hname | hname
    · have hwrapper : (Classes.of o.layout (g.file i)).top.lookup .wrapper = some name := hname
      exact lookup_top_isIdentifier_iff hf rfl hwrapper
    · have hholder : (Classes.of o.layout (g.file i)).top.lookup .extensions = some name := hname
      exact lookup_top_isIdentifier_iff hf rfl hholder
  case types =>
    intro name hname
    refine isIdentifier_of_isName ?_
    rcases List.mem_append.mp hname with hname | hname
    · obtain ⟨n, hn, hname⟩ := List.mem_flatMap.mp hname
      obtain ⟨j, hj, rfl⟩ := List.mem_map.mp hn
      exact isName_classNames hl hf (List.mem_range.mp hj) _ name hname
    · obtain ⟨n, hn, rfl⟩ := List.mem_map.mp hname
      obtain ⟨j, hj, rfl⟩ := List.mem_map.mp hn
      dsimp only [enumNames]
      exact isName_enumName hl hf (List.mem_range.mp hj)

/-- A file with a hyphen in its name, and an extension. -/
def hyphened : Descriptor.File where
  name := "a-b.proto"
  package := "q"
  messages := [{ name := "M", extensionRanges := [⟨100, 200⟩] }]
  extensions := [{ name := "x", number := 100, label := 1, type := 5, extendee := some ".q.M" }]

theorem classNames_identifiers_hyphened :
    ∃ g, Graph.build [hyphened] = .ok g ∧ (g.file 0).Named ∧
      let n := (allocate ⟨"p", "p.converter", .type, false⟩ g [0]).file 0
      (isIdentifier n.converterClass.toList ↔
        isStem (dropProtobufMark (converterBase (g.file 0)).toList)) ∧
      (∀ name ∈ n.wrapperClass.toList ++ n.extensionsClass.toList,
        (isIdentifier name.toList ↔ isStem (g.file 0).baseName.toList)) ∧
      ∀ name ∈ n.messages.flatMap MessageNames.classNames ++ n.enums.map (·.className),
        isIdentifier name.toList := by
  let g := (Graph.build [hyphened]).toOption.getD default
  have hg : Graph.build [hyphened] = .ok g := rfl
  have hf : (g.file 0).Named := by decide +kernel
  have hi : 0 < g.files.length := by decide
  clear_value g
  exact ⟨g, hg, hf, classNames_identifiers hg _ [0] hi hf⟩

/-- The hyphen in the name of a file stays in that of the class for its extensions. -/
theorem extensionsClass_hyphened :
    ∃ g, Graph.build [hyphened] = .ok g ∧ g.Spelled ∧
      ((allocate ⟨"p", "p.converter", .type, false⟩ g [0]).file 0).extensionsClass =
        some "A-bExtensions" ∧
      isIdentifier "A-bExtensions".toList = false := by
  refine ⟨(Graph.build [hyphened]).toOption.getD default, rfl, ?_, ?_, rfl⟩
  · decide +kernel
  · decide +kernel

end Files

end Naming

end ProtoJava
