import Mathlib.Data.List.GetD
import ProtoJava.Bean.Outline
import ProtoJava.Proofs.Java.Classes
import ProtoJava.Proofs.Java.Balance
import ProtoJava.Proofs.Naming.Packages
import ProtoJava.Proofs.Schema.Spelled

/-! # Allocated identifiers

The names that are planned for a spelled file are identifiers as far as declarations have them, and
mean nothing to a scan of code as far as expressions hold them.
-/

namespace ProtoJava.Naming

open Java (isIdentifier Neutral neutral_empty neutral_of_isIdentifier neutral_of_plain isPlain_of)
open Schema (File Message Field Oneof Graph MessageId EnumId)

/-- Names of a field, and those that protobuf-java has for it. -/
structure MemberNames.Proper (n : MemberNames) : Prop where
  field : isIdentifier n.field.toList
  numberConst : Neutral n.numberConst
  defaultConst : ∀ constant ∈ n.defaultConst, Neutral constant
  accessor : Neutral n.accessor

structure VariantNames.Proper (n : VariantNames) : Prop where
  wrapper : Neutral n.wrapper
  caseConstant : Neutral n.caseConstant
  setter : Neutral n.setter
  getter : Neutral n.getter
  protoCaseConstant : Neutral n.protoCaseConstant

structure UnionNames.Proper (n : UnionNames) : Prop where
  field : isIdentifier n.field.toList
  caseGetter : isIdentifier n.caseGetter.toList
  iface : Neutral n.iface
  caseEnum : Neutral n.caseEnum
  notSet : Neutral n.notSet
  protoCaseGetter : Neutral n.protoCaseGetter
  variants : ∀ v ∈ n.variants, v.Proper

structure ExtensionNames.Proper (n : ExtensionNames) : Prop where
  numberConst : isIdentifier n.numberConst.toList
  extendeeConst : Neutral n.extendeeConst

structure EnumNames.Proper (n : EnumNames) : Prop where
  className : isIdentifier n.className.toList
  constants : ∀ constant ∈ n.constants, isIdentifier constant.toList

structure ConverterNames.Proper (n : ConverterNames) : Prop where
  decode : isIdentifier n.decode.toList
  encode : Neutral n.encode
  bytes : Neutral n.bytes

structure MessageNames.Proper (n : MessageNames) : Prop where
  className : isIdentifier n.className.toList
  fields : ∀ f ∈ n.fields, f.Proper
  unions : ∀ u, some u ∈ n.unions → u.Proper
  extensions : ∀ x ∈ n.extensions, x.Proper
  converter : n.converter.Proper

structure FileNames.Proper (n : FileNames) : Prop where
  beanPackage : isPackageName n.beanPackage.toList
  converterClass : isIdentifier n.converterClass.toList
  wrapperClass : ∀ wrapper ∈ n.wrapperClass, isIdentifier wrapper.toList
  extensionsClass : ∀ holder ∈ n.extensionsClass, isIdentifier holder.toList
  extensions : ∀ x ∈ n.extensions, x.Proper
  protoPackage : Neutral n.protoPackage
  protoOuterClass : ∀ outer ∈ n.protoOuterClass, Neutral outer
  messages : ∀ m ∈ n.messages, m.Proper
  enums : ∀ e ∈ n.enums, e.Proper

/-- The names of classes for a message. -/
def MessageNames.classNames (n : MessageNames) : List String :=
  n.className :: n.unions.flatMap fun u => (u.map Bean.unionClassNames).getD []

/-- The names of classes for a file. -/
def FileNames.classNames (n : FileNames) : List String :=
  n.converterClass :: (n.wrapperClass.toList ++ n.extensionsClass.toList ++
    n.messages.flatMap MessageNames.classNames ++ n.enums.map (·.className))

section Tables

variable {s t : String}

theorem isWord_of_isName {cs : List Char} (h : isName cs) : ∀ c ∈ cs, isWord c :=
  (isName_iff.mp h).2

theorem neutral_of_isWord (h : ∀ c ∈ s.toList, isWord c) : Neutral s :=
  neutral_of_plain fun c hc => isPlain_of (h c hc) (by decide)

theorem neutral_of_isName (h : isName s.toList) : Neutral s :=
  neutral_of_isWord (isWord_of_isName h)

theorem neutral_of_isDotted (h : Schema.isDotted s.toList) : Neutral s :=
  neutral_of_plain fun c hc => isPlain_of (Schema.isDottedPart_of_isDotted h c hc) (by decide)

/-- A name with words after it is a name. -/
theorem isName_suffix (h : isName s.toList) (ht : ∀ c ∈ t.toList, isWord c) :
    isName (s ++ t).toList := by
  rw [String.toList_append]
  exact isName_append h ht

theorem isName_numbered (s : String) (n : Nat) (h : isName s.toList) :
    isName (s ++ toString n).toList := by
  refine isName_suffix h fun c hc => ?_
  simp [isWord, Char.isAlphanum, Text.isDigit_of_mem_nat hc]

variable {ρ : Type} [BEq ρ] [LawfulBEq ρ] {table : List (ρ × String)} {role : ρ}

theorem isName_nameFor (h : ∀ entry ∈ table, isName entry.2.toList) (hr : role ∈ table.map (·.1)) :
    isName (nameFor table role).toList :=
  h _ (lookup_eq_some_nameFor hr).2

/-- Without an entry for the role, its name is empty. -/
theorem neutral_nameFor (h : ∀ entry ∈ table, isName entry.2.toList) (role : ρ) :
    Neutral (nameFor table role) := by
  by_cases hr : role ∈ table.map (·.1)
  · exact neutral_of_isName (isName_nameFor h hr)
  · rw [nameFor, lookup_eq_none hr]
    exact neutral_empty

end Tables

section Requests

variable {m : Message} {f : Field}

theorem isName_numberConstant (h : f.Spelled) : isName (numberConstant f).toList :=
  isName_suffix (isName_upperSnake h.name) (by decide)

theorem isName_extensionRequests {xs : List Field} (h : ∀ x ∈ xs, x.Spelled) :
    ∀ request ∈ extensionRequests xs, isName request.2.toList := by
  intro request hr
  obtain ⟨x, hx, hr⟩ := List.mem_flatMap.mp hr
  simp only [List.mem_cons, List.not_mem_nil, or_false] at hr
  rcases hr with rfl | rfl
  · exact isName_numberConstant (h x hx)
  · exact isName_suffix (isName_upperSnake (h x hx).name) (by decide)

theorem isName_fieldRequests (hm : m.Spelled) (hf : f ∈ m.fields) :
    ∀ request ∈ fieldRequests m f, isName request.2.toList := by
  have hname := (hm.fields f hf).name
  intro request hr
  unfold fieldRequests at hr
  split at hr
  · next o hu =>
    have ho := (hm.oneofs o (Schema.Message.mem_oneofs_of_union? hu).1).name
    rw [unionMemberRequests, List.mem_append] at hr
    rcases hr with hr | hr
    · split at hr
      · simp only [List.mem_cons, List.not_mem_nil, or_false] at hr
        rcases hr with rfl | rfl
        · exact isName_lowerCamel ho
        · exact isName_suffix (isName_suffix (by decide) (isWord_of_isName (isName_camel ho)))
            (by decide)
      · exact absurd hr List.not_mem_nil
    · simp only [List.mem_cons, List.not_mem_nil, or_false] at hr
      rcases hr with rfl | rfl
      · exact isName_suffix (by decide) (isWord_of_isName (isName_camel hname))
      · exact isName_suffix (by decide) (isWord_of_isName (isName_camel hname))
  · rw [List.mem_singleton] at hr
    subst hr
    exact isName_lowerCamel hname

theorem isName_memberRequests (hm : m.Spelled) :
    ∀ request ∈ memberRequests m, isName request.2.toList := by
  intro request hr
  simp only [memberRequests, List.mem_append] at hr
  rcases hr with ((hr | hr) | hr) | hr
  · obtain ⟨f, hf, hr⟩ := List.mem_flatMap.mp hr
    exact isName_fieldRequests hm hf request hr
  · obtain ⟨f, hf, rfl⟩ := List.mem_map.mp hr
    exact isName_numberConstant (hm.fields f hf)
  · obtain ⟨f, hf, rfl⟩ := List.mem_map.mp hr
    have hname := (hm.fields f (List.mem_of_mem_filter hf)).name
    exact isName_suffix (by decide) (isWord_of_isName (isName_upperSnake hname))
  · exact isName_extensionRequests hm.extensions request hr

theorem isName_memberTable (hm : m.Spelled) : ∀ entry ∈ memberTable m, isName entry.2.toList :=
  Registry.grant_of_numbered isName_numbered (isName_memberRequests hm)

theorem isName_caseTable {members : List Field} {o : Oneof} (h : ∀ f ∈ members, f.Spelled)
    (ho : isName o.name.toList) : ∀ entry ∈ caseTable members o, isName entry.2.toList := by
  refine Registry.grant_of_numbered isName_numbered ?_
  intro request hr
  rcases List.mem_append.mp hr with hr | hr
  · obtain ⟨f, hf, rfl⟩ := List.mem_map.mp hr
    exact isName_upperSnake (h f hf).name
  · rw [List.mem_singleton] at hr
    subst hr
    exact isName_suffix (isName_upperSnake ho) (by decide)

end Requests

section Messages

variable {m : Message}

theorem memberNames_proper {f : Field} (hm : m.Spelled) (hf : f ∈ m.fields) :
    (memberNames m (memberTable m) f).Proper := by
  have htable := isName_memberTable hm
  constructor
  case field =>
    refine isIdentifier_of_isName ?_
    rw [memberNames]
    split
    · exact Registry.reserving.answer_of_numbered isName_numbered
        (isName_lowerCamel (hm.fields f hf).name)
    · next hu =>
      refine isName_nameFor htable ?_
      rw [memberTable, Registry.grant_roles]
      exact mem_fieldRequests hf (by simp [fieldRequests, hu])
  case numberConst => exact neutral_nameFor htable _
  case defaultConst =>
    intro constant hc
    obtain ⟨before, after, he, -⟩ := List.lookup_eq_some_iff.mp hc
    have hmem := htable (_, constant) (he ▸ List.mem_append_right _ List.mem_cons_self)
    exact neutral_of_isName hmem
  case accessor => exact neutral_of_isWord (isWord_accessorStem f.name)

/-- Only synthetic unions may do without members. -/
theorem mem_inhabitedUnions_of_spelled (hm : m.Spelled) (hn : m.Numbered) {o : Oneof}
    (ho : o ∈ m.oneofs) (hs : o.synthetic = false) : o ∈ inhabitedUnions m := by
  obtain ⟨f, hf, hi⟩ := (hm.oneofs o ho).member hs
  have hu : m.union? f = some o := by
    rw [Message.union?, hi, Option.bind_some, Schema.getElem?_index hn.oneofs ho]
    simp [Option.filter, hs]
  refine mem_inhabitedUnions_iff.mpr ⟨ho, hs, ?_⟩
  exact List.ne_nil_of_mem ((mem_unionMembers_iff hn ho).mpr ⟨hf, hu⟩)

theorem unionNames_proper {o : Oneof} {u : UnionNames} {scope : ClassTable} (hm : m.Spelled)
    (hn : m.Numbered) (ho : o ∈ m.oneofs) (h : unionNames m scope (memberTable m) o = some u)
    (hc : ∀ name ∈ Bean.unionClassNames u, isIdentifier name.toList) : u.Proper := by
  have htable := isName_memberTable hm
  have hname := (hm.oneofs o ho).name
  have hmembers : ∀ f ∈ unionMembers m o, f.Spelled :=
    fun f hf => hm.fields f (List.mem_of_mem_filter hf)
  have hcases := isName_caseTable hmembers hname
  unfold unionNames at h
  split at h
  · simp at h
  · next hs =>
    obtain rfl := Option.some.inj h
    have hinhabited := mem_inhabitedUnions_of_spelled hm hn ho (by simpa using hs)
    have hrole : ∀ role ∈ unionRoles m o, role ∈ (memberTable m).map (·.1) := by
      intro role hr
      rw [memberTable, Registry.grant_roles]
      exact mem_memberRequests hn (mem_memberRoles_of_union hinhabited hr)
    simp only [Bean.unionClassNames, List.forall_mem_cons, List.forall_mem_map] at hc
    constructor
    case field =>
      exact isIdentifier_of_isName (isName_nameFor htable (hrole _ (by simp [unionRoles])))
    case caseGetter =>
      exact isIdentifier_of_isName (isName_nameFor htable (hrole _ (by simp [unionRoles])))
    case iface => exact neutral_of_isIdentifier hc.1
    case caseEnum => exact neutral_of_isIdentifier hc.2.1
    case notSet => exact neutral_nameFor hcases _
    case protoCaseGetter =>
      refine neutral_of_isWord ?_
      simp only [String.toList_append, List.forall_mem_append]
      exact ⟨⟨by decide, isWord_accessorStem o.name⟩, by decide⟩
    case variants =>
      intro v hv
      obtain ⟨f, hf, rfl⟩ := List.mem_map.mp hv
      exact {
        wrapper := neutral_of_isIdentifier (hc.2.2 f hf)
        caseConstant := neutral_nameFor hcases _
        setter := neutral_nameFor htable _
        getter := neutral_nameFor htable _
        protoCaseConstant := neutral_of_isWord (isWord_toUpper_text (hmembers f hf).name) }

theorem extensionNames_proper {table : MemberTable} {xs : List Field}
    (ht : ∀ entry ∈ table, isName entry.2.toList)
    (hr : ∀ x ∈ xs, .extensionNumber x.index ∈ table.map (·.1)) :
    ∀ n ∈ extensionNames table xs, n.Proper := by
  intro n hn
  obtain ⟨x, hx, rfl⟩ := List.mem_map.mp hn
  exact ⟨isIdentifier_of_isName (isName_nameFor ht (hr x hx)), neutral_nameFor ht _⟩

theorem isName_methodTable {f : File}
    (h : ∀ m ∈ f.messages, ∀ t ∈ m.typeName, isName t.toList) :
    ∀ entry ∈ methodTable f, isName entry.2.toList := by
  refine Registry.grant_of_numbered isName_numbered ?_
  intro request hr
  obtain ⟨⟨m, i⟩, hm, hr⟩ := List.mem_flatMap.mp hr
  have hstem : isName ("to" ++ camel (String.join m.typeName)).toList := by
    refine isName_suffix (by decide) (isWord_camel ?_)
    rw [String.toList_join]
    intro c hc
    obtain ⟨t, ht, hc⟩ := List.mem_flatMap.mp hc
    exact isWord_of_isName (h m (List.fst_mem_of_mem_zipIdx hm) t ht) c hc
  simp only [List.mem_cons, List.not_mem_nil, or_false] at hr
  rcases hr with rfl | rfl | rfl
  · exact hstem
  · exact isName_suffix hstem (by decide)
  · exact isName_suffix hstem (by decide)

theorem mem_methodRequests {f : File} {i : Nat} (hi : i < f.messages.length) :
    .decode i ∈ (methodTable f).map (·.1) := by
  rw [methodTable, Registry.grant_roles, methodRequests, List.map_flatMap, List.mem_flatMap]
  refine ⟨(f.messages[i], i), ?_, List.mem_cons_self⟩
  rw [List.mem_zipIdx_iff_getElem?]
  exact List.getElem?_eq_getElem hi

theorem mem_extensionRequests {xs : List Field} {x : Field} (hx : x ∈ xs) :
    .extensionNumber x.index ∈ (extensionRequests xs).map (·.1) := by
  rw [extensionRequests, List.map_flatMap, List.mem_flatMap]
  exact ⟨x, hx, List.mem_cons_self⟩

variable {f : File} {classes : Classes} {i : Nat}

theorem messageNames_proper (hi : i < f.messages.length) (hs : (f.message i).Spelled)
    (hn : (f.message i).Numbered) (ht : ∀ m ∈ f.messages, ∀ t ∈ m.typeName, isName t.toList)
    (hc : ∀ name ∈ (messageNames f classes (methodTable f) i).classNames,
      isIdentifier name.toList) : (messageNames f classes (methodTable f) i).Proper := by
  have htable := isName_memberTable hs
  have hmethods := isName_methodTable ht
  rw [MessageNames.classNames, List.forall_mem_cons] at hc
  constructor
  case className => exact hc.1
  case fields =>
    intro n hm
    obtain ⟨x, hx, rfl⟩ := List.mem_map.mp hm
    exact memberNames_proper hs hx
  case unions =>
    intro u hu
    obtain ⟨o, ho, hou⟩ := List.mem_map.mp hu
    refine unionNames_proper hs hn ho hou fun name hname => hc.2 name ?_
    exact List.mem_flatMap.mpr ⟨some u, hu, hname⟩
  case extensions =>
    refine extensionNames_proper htable fun x hx => ?_
    rw [memberTable, Registry.grant_roles]
    exact mem_memberRequests hn (mem_memberRoles_iff.mpr
      (Or.inr (Or.inr (Or.inr (Or.inr ⟨x, hx, Or.inl rfl⟩)))))
  case converter =>
    exact {
      decode := isIdentifier_of_isName (isName_nameFor hmethods (mem_methodRequests hi))
      encode := neutral_nameFor hmethods _
      bytes := neutral_nameFor hmethods _ }

theorem enumNames_proper (hs : (f.enumType i).Spelled)
    (hc : isIdentifier (enumNames f classes i).className.toList) :
    (enumNames f classes i).Proper := by
  refine ⟨hc, fun constant hm => isIdentifier_of_isName ?_⟩
  refine Registry.claimAll_of_numbered isName_numbered ?_ constant hm
  exact List.forall_mem_map.mpr hs.values

theorem neutral_protoOuterClass (hs : f.Spelled) {outer : String}
    (h : outer ∈ protoOuterClass f) : Neutral outer := by
  have hstem := isWord_accessorStem f.baseName
  unfold protoOuterClass at h
  split at h
  · simp at h
  · obtain rfl := Option.some.inj h
    cases hj : f.java.outerClassname with
    | some name => exact neutral_of_isDotted (hs.outerClassname name hj)
    | none =>
      dsimp only [Option.getD_none]
      split
      · refine neutral_of_isWord ?_
        rw [String.toList_append, List.forall_mem_append]
        exact ⟨hstem, by decide⟩
      · exact neutral_of_isWord hstem

end Messages

section Files

variable {f : File}

/-- The names of a spelled file, provided that the names of its classes are identifiers. -/
theorem fileNames_proper {layout : Layout} {package converter : String} (hs : f.Spelled)
    (hl : f.Linked) (ht : ∀ m ∈ f.messages, ∀ t ∈ m.typeName, isName t.toList)
    (hp : isPackageName package.toList)
    (hc : ∀ name ∈ (fileNames layout f package converter).classNames, isIdentifier name.toList) :
    (fileNames layout f package converter).Proper := by
  simp only [FileNames.classNames, List.forall_mem_cons, List.forall_mem_append,
    List.forall_mem_flatMap, List.forall_mem_map, Option.mem_toList] at hc
  obtain ⟨hconverter, ⟨⟨hwrapper, hholder⟩, hmessages⟩, henums⟩ := hc
  constructor
  case beanPackage => exact hp
  case converterClass => exact hconverter
  case wrapperClass => exact hwrapper
  case extensionsClass => exact hholder
  case extensions =>
    refine extensionNames_proper ?_ fun x hx => ?_
    · exact Registry.grant_of_numbered isName_numbered (isName_extensionRequests hs.extensions)
    · rw [Registry.grant_roles]
      exact mem_extensionRequests hx
  case protoPackage =>
    change Neutral (f.java.package.getD f.package)
    cases hj : f.java.package with
    | some name => exact neutral_of_isDotted (hs.javaPackage name hj)
    | none => exact neutral_of_isDotted hs.package
  case protoOuterClass => exact fun outer => neutral_protoOuterClass hs
  case messages =>
    intro m hm
    obtain ⟨i, hi, rfl⟩ := List.mem_map.mp hm
    have hi := List.mem_range.mp hi
    have hspelled : (f.message i).Spelled := hs.messages _ (Schema.File.message_mem hi)
    exact messageNames_proper hi hspelled (hl.message_numbered hi) ht (hmessages _ hm)
  case enums =>
    intro e he
    obtain ⟨i, hi, rfl⟩ := List.mem_map.mp he
    have hi := List.mem_range.mp hi
    exact enumNames_proper (hs.enums _ (Schema.File.enumType_mem hi)) (henums _ he)

/-- The names of all files are proper ones. -/
def Allocation.Proper (a : Allocation) : Prop :=
  ∀ n ∈ a.files, n.Proper

/-- A graph of spelled files gets proper names, provided that those of classes are identifiers. -/
theorem allocate_proper {raws : List Descriptor.File} {g : Graph} {o : Options}
    {generate : List Nat} (hg : Graph.build raws = .ok g) (hs : g.Spelled)
    (hp : isPackageName o.beanPackage.toList)
    (hc : ∀ n ∈ (allocate o g generate).files, ∀ name ∈ n.classNames, isIdentifier name.toList) :
    (allocate o g generate).Proper := by
  intro n hn
  have hnames := hc n hn
  obtain ⟨i, hi, hfile⟩ := List.mem_map.mp hn
  have hi := List.mem_range.mp hi
  have hmem := Schema.Graph.file_of_lt hi
  have hpackage := isPackageName_beanPackage hp generate hi
  obtain ⟨package, converter, -, hf⟩ := allocate_file o generate hi
  have hfn : (allocate o g generate).file i = n := by
    rw [← hfile]
    simp [Allocation.file, allocate, hi]
  rw [← hfn] at hnames ⊢
  rw [hf] at hnames hpackage ⊢
  exact fileNames_proper (hs _ hmem) (Schema.Graph.build_linked hg i)
    (fun m hm => ((hs.proper hg hmem).1 m hm).names) hpackage hnames

end Files

namespace Allocation.Proper

variable {a : Allocation} {g : Graph}

theorem file (h : a.Proper) (i : Nat) : (a.file i).Proper ∨ a.file i = default := by
  rcases Nat.lt_or_ge i a.files.length with hi | hi
  · left
    rw [Allocation.file, List.getD_eq_getElem _ _ hi]
    exact h _ (List.getElem_mem hi)
  · right
    exact List.getD_eq_default _ _ hi

theorem message (h : a.Proper) (id : MessageId) :
    (a.message id).Proper ∨ a.message id = default := by
  rcases h.file id.file with hf | hf
  · rcases Nat.lt_or_ge id.index (a.file id.file).messages.length with hi | hi
    · left
      rw [Allocation.message, List.getD_eq_getElem _ _ hi]
      exact hf.messages _ (List.getElem_mem hi)
    · right
      exact List.getD_eq_default _ _ hi
  · right
    rw [Allocation.message, hf]
    rfl

theorem enumNames (h : a.Proper) (id : EnumId) :
    (a.enumNames id).Proper ∨ a.enumNames id = default := by
  rcases h.file id.file with hf | hf
  · rcases Nat.lt_or_ge id.index (a.file id.file).enums.length with hi | hi
    · left
      rw [Allocation.enumNames, List.getD_eq_getElem _ _ hi]
      exact hf.enums _ (List.getElem_mem hi)
    · right
      exact List.getD_eq_default _ _ hi
  · right
    rw [Allocation.enumNames, hf]
    rfl

theorem neutral_className (h : a.Proper) (id : MessageId) : Neutral (a.message id).className := by
  rcases h.message id with hm | hm
  · exact neutral_of_isIdentifier hm.className
  · rw [hm]
    exact neutral_empty

theorem neutral_enumName (h : a.Proper) (id : EnumId) : Neutral (a.enumNames id).className := by
  rcases h.enumNames id with he | he
  · exact neutral_of_isIdentifier he.className
  · rw [he]
    exact neutral_empty

theorem neutral_constant (h : a.Proper) (id : EnumId) :
    ∀ constant ∈ (a.enumNames id).constants, Neutral constant := by
  rcases h.enumNames id with he | he
  · exact fun constant hc => neutral_of_isIdentifier (he.constants constant hc)
  · rw [he]
    exact fun _ hc => absurd hc List.not_mem_nil

theorem neutral_converter (h : a.Proper) (id : MessageId) :
    Neutral (a.message id).converter.decode ∧ Neutral (a.message id).converter.encode ∧
      Neutral (a.message id).converter.bytes := by
  rcases h.message id with hm | hm
  · exact ⟨neutral_of_isIdentifier hm.converter.decode, hm.converter.encode, hm.converter.bytes⟩
  · rw [hm]
    exact ⟨neutral_empty, neutral_empty, neutral_empty⟩

theorem neutral_beanPackage (h : a.Proper) (i : Nat) : Neutral (a.file i).beanPackage := by
  rcases h.file i with hf | hf
  · exact Java.neutral_of_isPackageName hf.beanPackage
  · rw [hf]
    exact neutral_empty

theorem neutral_around (h : a.Proper) (i : Nat) (parent : Option Nat) :
    ∀ name ∈ a.around g i parent, Neutral name := by
  intro name hn
  unfold Allocation.around at hn
  rw [List.mem_append] at hn
  rcases hn with hn | hn
  · rw [Option.mem_toList] at hn
    rcases h.file i with hf | hf
    · exact neutral_of_isIdentifier (hf.wrapperClass name hn)
    · rw [hf] at hn
      exact absurd hn (Option.not_mem_none name)
  · obtain ⟨j, -, rfl⟩ := List.mem_map.mp hn
    exact h.neutral_className _

/-- The bean class of a message is called by a neutral name. -/
theorem neutral_messageClass (h : a.Proper) (id : MessageId) : (a.messageClass g id).Neutral := by
  refine ⟨h.neutral_beanPackage _, ?_⟩
  rw [Allocation.messageClass, List.forall_mem_append, List.forall_mem_singleton]
  exact ⟨h.neutral_around _ _, h.neutral_className id⟩

theorem neutral_enumClass (h : a.Proper) (id : EnumId) : (a.enumClass g id).Neutral := by
  refine ⟨h.neutral_beanPackage _, ?_⟩
  rw [Allocation.enumClass, List.forall_mem_append, List.forall_mem_singleton]
  exact ⟨h.neutral_around _ _, h.neutral_enumName id⟩

theorem neutral_protoClass (h : a.Proper) (i : Nat) {typeName : List String}
    (ht : ∀ t ∈ typeName, Neutral t) : (a.protoClass i typeName).Neutral := by
  rcases h.file i with hf | hf
  · refine ⟨hf.protoPackage, ?_⟩
    rw [Allocation.protoClass, List.forall_mem_append]
    exact ⟨fun outer ho => hf.protoOuterClass outer (Option.mem_toList.mp ho), ht⟩
  · rw [Allocation.protoClass, hf]
    exact ⟨neutral_empty, ht⟩

theorem neutral_converterClass (h : a.Proper) {package : String} (hp : Neutral package) (i : Nat) :
    (a.converterClass package i).Neutral := by
  refine Java.ClassName.neutral_top hp ?_
  rcases h.file i with hf | hf
  · exact neutral_of_isIdentifier hf.converterClass
  · rw [hf]
    exact neutral_empty

end Allocation.Proper

end ProtoJava.Naming
