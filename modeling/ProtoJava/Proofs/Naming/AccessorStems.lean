import Mathlib.Data.List.Chain
import ProtoJava.Proofs.Naming.Allocated
import ProtoJava.Proofs.Naming.Spelling
import ProtoJava.Proofs.Schema.References

/-! # Accessor stems

Accessors are looked up by the stem of a field's name. In protobuf-java those of a group have the
stem of its message, and for a group with the name that it is given in small letters both are the
same just if no capital of the message's name follows a letter.
-/

namespace ProtoJava.Naming

open Schema (Field Graph MessageId)

/-- The stem of the accessors that protobuf-java has for a field is that of its name, or for a
group that of the name of its message. -/
inductive ProtobufStem (g : Graph) (f : Field) : String → Prop
  | group {id : MessageId} : f.type = .group → g.FindsMessage f.typeName id →
      ProtobufStem g f (accessorStem (g.message id).name)
  | plain : f.type ≠ .group → ProtobufStem g f (accessorStem f.name)

/-- Capitals stand at the start or after what is no letter. -/
def CapitalsLead (cs : List Char) : Prop :=
  cs.IsChain fun before c => c.isUpper → ¬ before.isAlpha

section Stems

variable {c : Char} {cs ds : List Char}

theorem stemFrom_upper (capital : Bool) (h : c.isUpper) (cs : List Char) :
    stemFrom capital (c :: cs) = c :: stemFrom false cs := by
  simp [stemFrom, h, not_isLower_of_isUpper h]

/-- A letter that is not raised yields to small letters before those after it are. -/
theorem stemFrom_toLower_upper (capital : Bool) (h : c.isUpper) (cs : List Char) :
    stemFrom capital (c.toLower :: cs) =
      (if capital then c else c.toLower) :: stemFrom false cs := by
  obtain ⟨hlower, hback, -⟩ := toLower_of_isUpper h
  rw [stemFrom, if_pos hlower, hback]

/-- What is no capital leaves what follows it raised just if it is no letter. -/
theorem exists_stemFrom (capital : Bool) (h : ¬ c.isUpper) :
    ∃ image, ∀ cs, stemFrom capital (c :: cs) = image ++ stemFrom (!c.isAlpha) cs := by
  have halpha : c.isAlpha = c.isLower := by
    change (c.isUpper || c.isLower) = c.isLower
    rw [Bool.eq_false_iff.mpr h, Bool.false_or]
  rw [halpha]
  by_cases hl : c.isLower
  · exact ⟨[if capital then c.toUpper else c], fun cs => by simp [stemFrom, hl]⟩
  · by_cases hd : c.isDigit
    · exact ⟨[c], fun cs => by simp [stemFrom, hl, h, hd]⟩
    · exact ⟨[], fun cs => by simp [stemFrom, hl, h, hd]⟩

theorem stemFrom_toLower_iff (capital : Bool) :
    stemFrom capital (cs.map Char.toLower) = stemFrom capital cs ↔
      (∀ c ∈ cs.head?, c.isUpper → capital) ∧ CapitalsLead cs := by
  -- Both scans raise what follows a character alike, since small letters are letters too.
  induction cs generalizing capital with
  | nil => simp [stemFrom, CapitalsLead]
  | cons c cs ih =>
    have hlead : CapitalsLead (c :: cs) ↔
        (∀ d ∈ cs.head?, d.isUpper → ¬ c.isAlpha) ∧ CapitalsLead cs := List.isChain_cons
    rw [List.map_cons, List.head?_cons, hlead]
    by_cases hu : c.isUpper
    · have halpha := isAlpha_of_isUpper hu
      rw [stemFrom_upper _ hu, stemFrom_toLower_upper _ hu, List.cons.injEq, ih]
      have hne := (toLower_of_isUpper hu).2.2
      cases capital <;> simp [hu, hne, halpha]
    · obtain ⟨image, himage⟩ := exists_stemFrom capital hu
      rw [toLower_of_not_isUpper hu, himage, himage, List.append_cancel_left_eq, ih]
      simp [hu]

/-- The stems that accessors avoid do not get in the way of others. -/
theorem accessorStem_eq_iff {s t : String} :
    accessorStem s = accessorStem t ↔ stemFrom true s.toList = stemFrom true t.toList := by
  have hplain : ∀ cs, stemFrom true cs ≠ ['C', 'l', 'a', 's', 's', '_'] := by
    intro cs h
    have := isAlphanum_stemFrom true '_' (h ▸ by decide : '_' ∈ stemFrom true cs)
    exact absurd this (by decide)
  simp only [accessorStem, String.ofList_inj, accessorStemChars]
  constructor
  · intro h
    split_ifs at h with hs ht ht
    · exact hs.trans ht.symm
    · exact absurd (hs ▸ h).symm (hplain _)
    · exact absurd (ht ▸ h) (hplain _)
    · exact h
  · intro h
    rw [h]

/-- The stem is kept in small letters just if every capital would be raised anyway. -/
theorem accessorStem_toLower_iff {s t : String} (h : s.toList = t.toList.map Char.toLower) :
    accessorStem s = accessorStem t ↔ CapitalsLead t.toList := by
  rw [accessorStem_eq_iff, h, stemFrom_toLower_iff]
  exact and_iff_right fun _ _ _ => rfl

end Stems

section Accessors

variable {raws : List Descriptor.File} {g : Graph} {f : Field} {stem other : String}

theorem ProtobufStem.unique (h : ProtobufStem g f stem) (h' : ProtobufStem g f other) :
    other = stem := by
  cases h with
  | group ht hm =>
    cases h' with
    | group _ hm' =>
      have hid := Schema.TypeRef.message.inj (Except.ok.inj (hm.resolve.symm.trans hm'.resolve))
      rw [hid]
    | plain hn => exact absurd ht hn
  | plain hn =>
    cases h' with
    | group ht => exact absurd ht hn
    | plain => rfl

/-- In a graph whose references are found every field has a stem. -/
theorem exists_protobufStem (hr : g.Refers f) : ∃ stem, ProtobufStem g f stem := by
  by_cases ht : f.type = .group
  · obtain ⟨id, hm⟩ := hr.message (by rw [ht]; rfl)
    exact ⟨_, .group ht hm⟩
  · exact ⟨_, .plain ht⟩

theorem protobufStem_group_iff {id : MessageId} (ht : f.type = .group)
    (hm : g.FindsMessage f.typeName id) :
    ProtobufStem g f stem ↔ stem = accessorStem (g.message id).name := by
  constructor
  · exact (ProtobufStem.group ht hm).unique
  · rintro rfl
    exact .group ht hm

theorem allocate_accessor (o : Options) (generate : List Nat) {id : MessageId} {k : Nat}
    (hf : (g.message id).fields[k]? = some f) :
    ∃ names, ((allocate o g generate).message id).fields[k]? = some names ∧
      names.accessor = accessorStem f.name := by
  have hlt := g.index_lt (g.message_ne_of_field (List.mem_of_getElem? hf))
  rw [allocate_message hlt]
  refine ⟨memberNames (g.message id) (memberTable (g.message id)) f, ?_, rfl⟩
  rw [messageNames, List.getElem?_map]
  exact congrArg _ hf

/-- Accessors have the stem of the field's name. That is the stem in protobuf-java but for groups;
for a group whose field is its message's name in small letters it is so just if no capital of that
name follows a letter. -/
theorem accessors_stem (hg : Graph.build raws = .ok g) (hc : g.checkReferences g.index = .ok ())
    (o : Options) (generate : List Nat) {id : MessageId} {k : Nat}
    (hf : (g.message id).fields[k]? = some f) :
    ∃ names, ((allocate o g generate).message id).fields[k]? = some names ∧
      names.accessor = accessorStem f.name ∧
      (∃! stem, ProtobufStem g f stem) ∧
      (f.type ≠ .group → ProtobufStem g f names.accessor) ∧
      ∀ group, f.type = .group → g.FindsMessage f.typeName group →
        (ProtobufStem g f names.accessor ↔
          accessorStem f.name = accessorStem (g.message group).name) ∧
        (f.name.toList = (g.message group).name.toList.map Char.toLower →
          (ProtobufStem g f names.accessor ↔ CapitalsLead (g.message group).name.toList)) := by
  obtain ⟨names, hnames, haccessor⟩ := allocate_accessor o generate hf
  have hr := (Graph.checkReferences_iff hg).mp hc _ f
    (g.declares_field (List.mem_of_getElem? hf))
  obtain ⟨stem, hstem⟩ := exists_protobufStem hr
  refine ⟨names, hnames, haccessor, ⟨stem, hstem, fun _ h => hstem.unique h⟩, ?_, ?_⟩
  · intro ht
    rw [haccessor]
    exact .plain ht
  · intro group ht hm
    rw [protobufStem_group_iff ht hm, haccessor]
    exact ⟨Iff.rfl, accessorStem_toLower_iff⟩

/-- A message with two groups, one of which has a capital inside its name. -/
def grouped : List Descriptor.File :=
  [{ name := "a.proto", package := "q", messages := [{
    name := "M"
    fields := [
      { name := "mygroup", number := 1, label := 1, type := 10, typeName := ".q.M.MyGroup" },
      { name := "part_2", number := 2, label := 1, type := 10, typeName := ".q.M.Part_2" }]
    nested := [{ name := "MyGroup" }, { name := "Part_2" }] }] }]

theorem exists_grouped : ∃ g first second, Graph.build grouped = .ok g ∧
    g.checkReferences g.index = .ok () ∧ (g.message ⟨0, 0⟩).fields = [first, second] ∧
    (first.name = "mygroup" ∧ first.type = .group ∧ g.FindsMessage first.typeName ⟨0, 1⟩ ∧
      (g.message ⟨0, 1⟩).name = "MyGroup") ∧
    second.name = "part_2" ∧ second.type = .group ∧ g.FindsMessage second.typeName ⟨0, 2⟩ ∧
      (g.message ⟨0, 2⟩).name = "Part_2" := by
  obtain ⟨g, hg⟩ : ∃ g, Graph.build grouped = .ok g := ⟨_, rfl⟩
  have hfound : g.FindsMessage ".q.M.MyGroup" ⟨0, 1⟩ ∧ g.FindsMessage ".q.M.Part_2" ⟨0, 2⟩ := by
    simp only [← Graph.resolve_message hg]
    cases hg
    decide
  cases hg
  exact ⟨_, _, _, rfl, by decide, rfl, ⟨rfl, rfl, hfound.1, rfl⟩, rfl, rfl, hfound.2, rfl⟩

theorem accessors_stem_grouped : ∃ g f names, Graph.build grouped = .ok g ∧
    g.checkReferences g.index = .ok () ∧ (g.message ⟨0, 0⟩).fields[1]? = some f ∧
    ((allocate ⟨"p", "p.converter", .type, false⟩ g [0]).message ⟨0, 0⟩).fields[1]? = some names ∧
    names.accessor = "Part2" ∧ ProtobufStem g f names.accessor := by
  obtain ⟨g, _, f, hg, hc, hfields, -, hname, ht, hm, hlocal⟩ := exists_grouped
  have hf : (g.message ⟨0, 0⟩).fields[1]? = some f := by rw [hfields]; rfl
  obtain ⟨names, hnames, haccessor, -, -, hgroup⟩ :=
    accessors_stem hg hc ⟨"p", "p.converter", .type, false⟩ [0] hf
  refine ⟨g, f, names, hg, hc, hf, hnames, ?_, ((hgroup _ ht hm).2 ?_).mpr ?_⟩
  · rw [haccessor, hname]
    decide
  · rw [hname, hlocal]
    decide
  · rw [hlocal]
    unfold CapitalsLead
    decide

/-- The capital inside the name of the other group gets lost. -/
theorem accessor_ungrouped : ∃ g f names, Graph.build grouped = .ok g ∧
    g.checkReferences g.index = .ok () ∧ (g.message ⟨0, 0⟩).fields[0]? = some f ∧
    ((allocate ⟨"p", "p.converter", .type, false⟩ g [0]).message ⟨0, 0⟩).fields[0]? = some names ∧
    names.accessor = "Mygroup" ∧ ProtobufStem g f "MyGroup" ∧
    ¬ ProtobufStem g f names.accessor := by
  obtain ⟨g, f, _, hg, hc, hfields, ⟨hname, ht, hm, hlocal⟩, -⟩ := exists_grouped
  have hf : (g.message ⟨0, 0⟩).fields[0]? = some f := by rw [hfields]; rfl
  obtain ⟨names, hnames, haccessor⟩ :=
    allocate_accessor ⟨"p", "p.converter", .type, false⟩ [0] hf
  have hmade : names.accessor = "Mygroup" := by
    rw [haccessor, hname]
    decide
  have hstem : accessorStem (g.message ⟨0, 1⟩).name = "MyGroup" := by
    rw [hlocal]
    decide
  refine ⟨g, f, names, hg, hc, hf, hnames, hmade, hstem ▸ .group ht hm, ?_⟩
  rw [protobufStem_group_iff ht hm, hmade, hstem]
  decide

end Accessors

end ProtoJava.Naming
