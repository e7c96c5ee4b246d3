import ProtoJava.Proofs.Schema.Spelled

/-! # References of a graph

The check of a graph passes just if every type that a field names, and every message that one
extends, is found among the declarations as what it should be.
-/

namespace ProtoJava.Schema

/-- A type is declared in the graph. -/
def Graph.Has (g : Graph) : TypeRef → Prop
  | .message id => id.file < g.files.length ∧ id.index < (g.file id.file).messages.length
  | .enum id => id.file < g.files.length ∧ id.index < (g.file id.file).enums.length

/-- A name is found in the index, as a message of the graph that has it as its full name. -/
structure Graph.FindsMessage (g : Graph) (name : String) (id : MessageId) : Prop where
  resolve : g.index.resolve name = .ok (.message id)
  file_lt : id.file < g.files.length
  lt : id.index < (g.file id.file).messages.length
  fullName : (g.message id).fullName = name

/-- A name is found in the index, as an enum of the graph that has it as its full name. -/
structure Graph.FindsEnum (g : Graph) (name : String) (id : EnumId) : Prop where
  resolve : g.index.resolve name = .ok (.enum id)
  file_lt : id.file < g.files.length
  lt : id.index < (g.file id.file).enums.length
  fullName : (g.enumType id).fullName = name

/-- The references of a field are found as what they should be. -/
structure Graph.Refers (g : Graph) (f : Field) : Prop where
  message : f.type.isMessage → ∃ id, g.FindsMessage f.typeName id
  enum : f.type = .enum → ∃ id, g.FindsEnum f.typeName id
  extendee : ∀ name ∈ f.extendee, ∃ id, g.FindsMessage name id

/-- Where a field stands: in a message, or in a file itself. -/
inductive Graph.Declares (g : Graph) : Option Message → Field → Prop
  | field {f : File} {m : Message} {x : Field} :
      f ∈ g.files → m ∈ f.messages → x ∈ m.fields → g.Declares (some m) x
  | extension {f : File} {m : Message} {x : Field} :
      f ∈ g.files → m ∈ f.messages → x ∈ m.extensions → g.Declares (some m) x
  | fileExtension {f : File} {x : Field} :
      f ∈ g.files → x ∈ f.extensions → g.Declares none x

section Declared

variable {g : Graph} {f : Field}

theorem Graph.index_lt {id : MessageId} (hm : g.message id ≠ default) :
    id.index < (g.file id.file).messages.length := by
  by_contra hn
  exact hm (File.message_of_le (Nat.le_of_not_lt hn))

/-- A message that has something is a message of a file of the graph. -/
theorem Graph.exists_file {id : MessageId} (hm : g.message id ≠ default) :
    ∃ file ∈ g.files, g.message id ∈ file.messages := by
  have hi := g.index_lt hm
  have hlt : id.file < g.files.length := by
    by_contra hn
    simp [Graph.file, Nat.le_of_not_lt hn] at hi
  exact ⟨g.file id.file, Graph.file_of_lt hlt, File.message_mem hi⟩

theorem Graph.message_ne_of_field {id : MessageId} (hf : f ∈ (g.message id).fields) :
    g.message id ≠ default := by
  intro hm
  rw [hm] at hf
  exact absurd hf List.not_mem_nil

theorem Graph.declares_field {id : MessageId} (hf : f ∈ (g.message id).fields) :
    g.Declares (some (g.message id)) f := by
  obtain ⟨file, hfile, hm⟩ := g.exists_file (g.message_ne_of_field hf)
  exact .field hfile hm hf

theorem Graph.declares_extension {id : MessageId} (hf : f ∈ (g.message id).extensions) :
    g.Declares (some (g.message id)) f := by
  obtain ⟨file, hfile, hm⟩ := g.exists_file fun hm => by
    rw [hm] at hf
    exact absurd hf List.not_mem_nil
  exact .extension hfile hm hf

theorem Graph.declares_fileExtension {i : Nat} (hf : f ∈ (g.file i).extensions) :
    g.Declares none f := by
  have hlt : i < g.files.length := by
    by_contra hn
    simp [Graph.file, Nat.le_of_not_lt hn] at hf
  exact .fileExtension (Graph.file_of_lt hlt) hf

end Declared

section Index

variable {raws : List Descriptor.File} {g : Graph} {name : String}

theorem Graph.build_id (hg : Graph.build raws = .ok g) {i : Nat} (hi : i < g.files.length) :
    g.files[i].id = i := by
  obtain ⟨raw, f₀, -, h₀, hf⟩ := Graph.build_ok hg (List.getElem?_eq_getElem hi)
  rw [hf]
  exact (File.ofDescriptor_ok h₀).1

theorem Graph.file_eq_getElem {i : Nat} (hi : i < g.files.length) : g.file i = g.files[i] := by
  simp [Graph.file, hi]

theorem Index.mem_of_resolve {ix : Index} {ref : TypeRef} (h : ix.resolve name = .ok ref) :
    (name, ref) ∈ ix.entries := by
  unfold Index.resolve at h
  split at h
  · next hl =>
    obtain rfl := Except.ok.inj h
    obtain ⟨before, after, he, -⟩ := List.lookup_eq_some_iff.mp hl
    rw [he]
    exact List.mem_append_right _ List.mem_cons_self
  · exact nomatch h

theorem Index.resolveMessage_eq_ok_iff {ix : Index} {id : MessageId} :
    ix.resolveMessage name = .ok id ↔ ix.resolve name = .ok (.message id) := by
  rw [Index.resolveMessage, bind_eq_ok_iff]
  constructor
  · rintro ⟨ref, hr, h⟩
    cases ref with
    | message id' =>
      obtain rfl := Except.ok.inj h
      exact hr
    | enum id' => exact nomatch h
  · exact fun h => ⟨_, h, rfl⟩

theorem Index.resolveEnum_eq_ok_iff {ix : Index} {id : EnumId} :
    ix.resolveEnum name = .ok id ↔ ix.resolve name = .ok (.enum id) := by
  rw [Index.resolveEnum, bind_eq_ok_iff]
  constructor
  · rintro ⟨ref, hr, h⟩
    cases ref with
    | message id' => exact nomatch h
    | enum id' =>
      obtain rfl := Except.ok.inj h
      exact hr
  · exact fun h => ⟨_, h, rfl⟩

/-- The names of a file are the full names of its messages and of its enums. -/
theorem File.mem_named_iff {f : File} {name : String} {ref : TypeRef} :
    (name, ref) ∈ f.named ↔
      (∃ i m, f.messages[i]? = some m ∧ m.fullName = name ∧ ref = .message ⟨f.id, i⟩) ∨
      ∃ i e, f.enums[i]? = some e ∧ e.fullName = name ∧ ref = .enum ⟨f.id, i⟩ := by
  rw [File.named, List.mem_append, List.mem_mapIdx, List.mem_mapIdx]
  simp only [List.getElem?_eq_some_iff, Prod.mk.injEq]
  grind

/-- What the index gives for a name is declared in a file under its position. -/
theorem Graph.mem_named (hg : Graph.build raws = .ok g) {ref : TypeRef}
    (h : g.index.resolve name = .ok ref) : ∃ i < g.files.length,
      (g.file i).id = i ∧ (name, ref) ∈ (g.file i).named := by
  obtain ⟨f, hf, hmem⟩ := List.mem_flatMap.mp (Index.mem_of_resolve h)
  obtain ⟨i, hi, rfl⟩ := List.mem_iff_getElem.mp hf
  refine ⟨i, hi, ?_⟩
  rw [Graph.file_eq_getElem hi]
  exact ⟨Graph.build_id hg hi, hmem⟩

theorem Graph.resolve_message (hg : Graph.build raws = .ok g) {id : MessageId} :
    g.index.resolveMessage name = .ok id ↔ g.FindsMessage name id := by
  rw [Index.resolveMessage_eq_ok_iff]
  constructor
  · intro h
    obtain ⟨i, hi, hid, hmem⟩ := Graph.mem_named hg h
    obtain ⟨k, m, hm, hname, href⟩ | ⟨_, _, -, -, href⟩ := File.mem_named_iff.mp hmem
    · obtain rfl := TypeRef.message.inj href
      obtain ⟨hk, rfl⟩ := List.getElem?_eq_some_iff.mp hm
      refine ⟨h, by rwa [hid], by rwa [hid], ?_⟩
      rw [Graph.message, hid, File.message_eq_getElem hk, hname]
    · cases href
  · exact fun h => h.resolve

theorem Graph.resolve_enum (hg : Graph.build raws = .ok g) {id : EnumId} :
    g.index.resolveEnum name = .ok id ↔ g.FindsEnum name id := by
  rw [Index.resolveEnum_eq_ok_iff]
  constructor
  · intro h
    obtain ⟨i, hi, hid, hmem⟩ := Graph.mem_named hg h
    obtain ⟨_, _, -, -, href⟩ | ⟨k, e, he, hname, href⟩ := File.mem_named_iff.mp hmem
    · cases href
    · obtain rfl := TypeRef.enum.inj href
      obtain ⟨hk, rfl⟩ := List.getElem?_eq_some_iff.mp he
      refine ⟨h, by rwa [hid], by rwa [hid], ?_⟩
      rw [Graph.enumType, hid, File.enumType_eq_getElem hk, hname]
  · exact fun h => h.resolve

end Index

section Check

variable {raws : List Descriptor.File} {g : Graph} {f : Field}

theorem Index.checkField_eq_ok_iff {ix : Index} : ix.checkField f = .ok () ↔
    (f.type.isMessage → ∃ id, ix.resolveMessage f.typeName = .ok id) ∧
    (f.type = .enum → ∃ id, ix.resolveEnum f.typeName = .ok id) ∧
    ∀ name ∈ f.extendee, ∃ id, ix.resolveMessage name = .ok id := by
  have hstep {α : Type} (x : Except Error α) (y : Except Error Unit) :
      (x >>= fun _ => y) = .ok () ↔ (∃ a, x = .ok a) ∧ y = .ok () := by
    rw [bind_eq_ok_iff, exists_and_right]
  have htype : ∀ rest : Except Error Unit, (if f.type.isMessage then
        ix.resolveMessage f.typeName >>= fun _ => rest
      else if f.type.isNamed then ix.resolveEnum f.typeName >>= fun _ => rest
      else rest) = .ok () ↔
      (f.type.isMessage → ∃ id, ix.resolveMessage f.typeName = .ok id) ∧
      (f.type = .enum → ∃ id, ix.resolveEnum f.typeName = .ok id) ∧ rest = .ok () := by
    intro rest
    cases f.type <;> simp [FieldType.isMessage, FieldType.isNamed, hstep]
  refine (htype _).trans (and_congr_right' (and_congr_right' ?_))
  cases f.extendee with
  | none => simp [pure_eq_ok_iff]
  | some name => exact (hstep _ _).trans (by simp [pure_eq_ok_iff])

/-- The references of a field pass the check just if they are found as what they should be. -/
theorem Graph.checkField_iff (hg : Graph.build raws = .ok g) :
    g.index.checkField f = .ok () ↔ g.Refers f := by
  rw [Index.checkField_eq_ok_iff]
  simp only [Graph.resolve_message hg, Graph.resolve_enum hg]
  exact ⟨fun ⟨h₁, h₂, h₃⟩ => ⟨h₁, h₂, h₃⟩, fun ⟨h₁, h₂, h₃⟩ => ⟨h₁, h₂, h₃⟩⟩

theorem Graph.exists_declares_iff :
    (∃ m, g.Declares m f) ↔ f ∈ g.files.flatMap File.declaredFields := by
  simp only [List.mem_flatMap, File.declaredFields, List.mem_append]
  constructor
  · rintro ⟨m, ⟨hf, hm, hx⟩ | ⟨hf, hm, hx⟩ | ⟨hf, hx⟩⟩
    · exact ⟨_, hf, Or.inl ⟨_, hm, Or.inl hx⟩⟩
    · exact ⟨_, hf, Or.inl ⟨_, hm, Or.inr hx⟩⟩
    · exact ⟨_, hf, Or.inr hx⟩
  · rintro ⟨file, hf, ⟨m, hm, hx | hx⟩ | hx⟩
    · exact ⟨_, .field hf hm hx⟩
    · exact ⟨_, .extension hf hm hx⟩
    · exact ⟨_, .fileExtension hf hx⟩

/-- The check of a graph passes just if the references of every field are found as what they
should be. -/
theorem Graph.checkReferences_iff (hg : Graph.build raws = .ok g) :
    g.checkReferences g.index = .ok () ↔ ∀ m f, g.Declares m f → g.Refers f := by
  rw [Graph.checkReferences, forM_eq_ok_iff]
  simp only [← Graph.exists_declares_iff, Graph.checkField_iff hg]
  exact ⟨fun h m f hf => h f ⟨m, hf⟩, fun h f ⟨m, hf⟩ => h m f hf⟩

end Check

end ProtoJava.Schema
