import Mathlib.Tactic.MkIffOfInductiveProp
import ProtoJava.Proofs.Naming.Spelling
import ProtoJava.Proofs.Schema.Built
import ProtoJava.Proofs.Text.Pieces
import ProtoJava.Schema.Index

/-! # Spelled files

Files whose names are spelled as a compiler of schema files accepts them. The full names of their
types, which are built from these names, are then spelled so, too.
-/

namespace ProtoJava.Schema

open Naming (isName isWord)
open Text (pieces)

/-- Names with dots between them, or nothing. -/
def isDotted (cs : List Char) : Bool :=
  cs.isEmpty || (pieces '.' cs).all isName

/-- Whether values of a type are truth values or numbers. -/
def FieldType.isNumeric : FieldType → Bool
  | string | bytes | group | message | enum => false
  | _ => true

/-- A character of a truth value or a number, as in `true`, `-1.5e+10` or `nan`. -/
def isNumeralPart (c : Char) : Bool :=
  c.isAlphanum || c = '.' || c = '+' || c = '-'

/-- A field of a proper name; only a default that is a text or bytes is arbitrary. -/
@[mk_iff]
structure Field.Spelled (f : Field) : Prop where
  name : isName f.name.toList
  default : f.type.isNumeric → ∀ text ∈ f.defaultValue, ∀ c ∈ text.toList, isNumeralPart c

/-- A oneof of a proper name that has a member, unless it is synthetic. -/
@[mk_iff]
structure Oneof.Spelled (o : Oneof) (fields : List Field) : Prop where
  name : isName o.name.toList
  member : o.synthetic = false → ∃ f ∈ fields, f.oneofIndex = some o.index

@[mk_iff]
structure Message.Spelled (m : Message) : Prop where
  name : isName m.name.toList
  fields : ∀ f ∈ m.fields, f.Spelled
  oneofs : ∀ o ∈ m.oneofs, o.Spelled m.fields
  extensions : ∀ x ∈ m.extensions, x.Spelled

@[mk_iff]
structure EnumType.Spelled (e : EnumType) : Prop where
  name : isName e.name.toList
  values : ∀ v ∈ e.values, isName v.name.toList

/-- A file in which all names are proper ones; comments are arbitrary. -/
@[mk_iff]
structure File.Spelled (f : File) : Prop where
  name : '\n' ∉ f.name.toList
  package : isDotted f.package.toList
  javaPackage : ∀ package ∈ f.java.package, isDotted package.toList
  outerClassname : ∀ outer ∈ f.java.outerClassname, isDotted outer.toList
  messages : ∀ m ∈ f.messages, m.Spelled
  enums : ∀ e ∈ f.enums, e.Spelled
  extensions : ∀ x ∈ f.extensions, x.Spelled

section Decidability

instance (f : Field) : Decidable f.Spelled :=
  decidable_of_iff' _ (Field.spelled_iff f)

instance (o : Oneof) (fields : List Field) : Decidable (o.Spelled fields) :=
  decidable_of_iff' _ (Oneof.spelled_iff o fields)

instance (m : Message) : Decidable m.Spelled :=
  decidable_of_iff' _ (Message.spelled_iff m)

instance (e : EnumType) : Decidable e.Spelled :=
  decidable_of_iff' _ (EnumType.spelled_iff e)

instance (f : File) : Decidable f.Spelled :=
  decidable_of_iff' _ (File.spelled_iff f)

end Decidability

/-- A character of a dotted name. -/
def isDottedPart (c : Char) : Bool :=
  isWord c || c = '.'

theorem isDottedPart_of_isName {cs : List Char} (h : isName cs) : ∀ c ∈ cs, isDottedPart c := by
  intro c hc
  rw [isDottedPart, Bool.or_eq_true]
  exact Or.inl ((Naming.isName_iff.mp h).2 c hc)

theorem isDottedPart_of_isDotted {cs : List Char} (h : isDotted cs) : ∀ c ∈ cs, isDottedPart c := by
  intro c hc
  rw [isDotted, Bool.or_eq_true, List.all_eq_true] at h
  rcases h with h | h
  · rw [List.isEmpty_iff.mp h] at hc
    exact absurd hc List.not_mem_nil
  · rcases Text.mem_pieces_of_mem '.' hc with rfl | ⟨p, hp, hcp⟩
    · rfl
    · exact isDottedPart_of_isName (h p hp) c hcp

section FullNames

/-- The type names of nodes are made of names of nodes and of those around all of them. -/
def NamedWithin (outer : List String) (nodes : List Node) : Prop :=
  ∀ node ∈ nodes, node.typeName ≠ [] ∧
    ∀ t ∈ node.typeName, t ∈ outer ∨ t ∈ nodes.map (·.raw.name)

theorem NamedWithin.append {outer : List String} {a b : List Node} (ha : NamedWithin outer a)
    (hb : NamedWithin outer b) : NamedWithin outer (a ++ b) := by
  intro node hn
  rcases List.mem_append.mp hn with hn | hn
  · obtain ⟨hne, h⟩ := ha node hn
    refine ⟨hne, fun t ht => (h t ht).imp_right fun hm => ?_⟩
    rw [List.map_append]
    exact List.mem_append_left _ hm
  · obtain ⟨hne, h⟩ := hb node hn
    refine ⟨hne, fun t ht => (h t ht).imp_right fun hm => ?_⟩
    rw [List.map_append]
    exact List.mem_append_right _ hm

mutual

theorem flattenMessage_namedWithin (stem : Stem) (start index : Nat) :
    ∀ m, NamedWithin stem.typeName (flattenMessage stem start index m)
  | .mk name fields extensions nested enums ranges oneofs mapEntry deprecated => by
    intro node hn
    rw [flattenMessage] at hn ⊢
    rcases List.mem_cons.mp hn with rfl | hn
    · refine ⟨by simp [Stem.node], fun t ht => ?_⟩
      rcases List.mem_append.mp ht with ht | ht
      · exact Or.inl ht
      · obtain rfl := List.mem_singleton.mp ht
        exact Or.inr List.mem_cons_self
    · obtain ⟨hne, h⟩ := flattenMessages_namedWithin _ (start + 1) 0 nested node hn
      refine ⟨hne, fun t ht => ?_⟩
      rcases h t ht with ht | ht
      · rcases List.mem_append.mp ht with ht | ht
        · exact Or.inl ht
        · obtain rfl := List.mem_singleton.mp ht
          exact Or.inr List.mem_cons_self
      · exact Or.inr (List.mem_cons_of_mem _ ht)

theorem flattenMessages_namedWithin (stem : Stem) (start index : Nat) :
    ∀ ms, NamedWithin stem.typeName (flattenMessages stem start index ms)
  | [] => by
    intro node hn
    exact absurd hn List.not_mem_nil
  | m :: r => by
    rw [flattenMessages]
    exact (flattenMessage_namedWithin stem start index m).append
      (flattenMessages_namedWithin stem _ (index + 1) r)

end

/-- A type whose name is made of proper names, and whose full name is this one in a package. -/
structure ProperType (package : String) (typeName : List String) (full : String) : Prop where
  ne_nil : typeName ≠ []
  names : ∀ t ∈ typeName, isName t.toList
  full : full = fullName package typeName

theorem File.ofDescriptor_package {id : Nat} {raw : Descriptor.File} {f : File}
    (h : File.ofDescriptor id raw = .ok f) : f.package = raw.package := by
  simp only [File.ofDescriptor, bind_eq_ok_iff, pure_eq_ok_iff] at h
  obtain ⟨_, -, _, -, rfl⟩ := h
  rfl

theorem File.ofDescriptor_proper {id : Nat} {raw : Descriptor.File} {f : File}
    (h : File.ofDescriptor id raw = .ok f) (hs : f.Spelled) :
    (∀ m ∈ f.messages, ProperType f.package m.typeName m.fullName) ∧
      ∀ e ∈ f.enums, ProperType f.package e.typeName e.fullName := by
  obtain ⟨-, he, -, -, hm⟩ := File.ofDescriptor_ok h
  rw [File.ofDescriptor_package h]
  have hnames : ∀ node ∈ flattenMessages .top 0 0 raw.messages, isName node.raw.name.toList := by
    intro node hn
    obtain ⟨k, hk, rfl⟩ := List.mem_iff_getElem.mp hn
    have hmem := hs.messages _ (hm ▸ List.mem_mapIdx.mpr ⟨k, hk, rfl⟩)
    exact hmem.name
  have hnodes : ∀ node ∈ flattenMessages .top 0 0 raw.messages,
      node.typeName ≠ [] ∧ ∀ t ∈ node.typeName, isName t.toList := by
    intro node hn
    obtain ⟨hne, ht⟩ := flattenMessages_namedWithin .top 0 0 raw.messages node hn
    refine ⟨hne, fun t hmem => ?_⟩
    rcases ht t hmem with h | h
    · exact absurd h List.not_mem_nil
    · obtain ⟨node, hn, rfl⟩ := List.mem_map.mp h
      exact hnames node hn
  constructor
  · intro m hmem
    rw [hm] at hmem
    obtain ⟨k, hk, rfl⟩ := List.mem_mapIdx.mp hmem
    obtain ⟨hne, ht⟩ := hnodes _ (List.getElem_mem hk)
    exact ⟨hne, ht, rfl⟩
  · intro e hmem
    have hname := (hs.enums e hmem).name
    rw [he, enumsOf, List.mem_append] at hmem
    rcases hmem with hmem | hmem
    · obtain ⟨k, hk, rfl⟩ := List.mem_mapIdx.mp hmem
      exact ⟨List.cons_ne_nil _ _, List.forall_mem_singleton.mpr hname, rfl⟩
    · obtain ⟨es, hes, hmem⟩ := List.mem_flatten.mp hmem
      obtain ⟨i, hi, rfl⟩ := List.mem_mapIdx.mp hes
      obtain ⟨k, hk, rfl⟩ := List.mem_mapIdx.mp hmem
      refine ⟨by simp [EnumType.ofDescriptor], ?_, rfl⟩
      rw [EnumType.ofDescriptor, List.forall_mem_append, List.forall_mem_singleton]
      exact ⟨(hnodes _ (List.getElem_mem hi)).2, hname⟩

theorem isDottedPart_joined {names : List String} (h : ∀ t ∈ names, isName t.toList) :
    ∀ c ∈ (Text.joined "." names).toList, isDottedPart c := by
  fun_induction Text.joined "." names with
  | case1 => simp
  | case2 t => exact isDottedPart_of_isName (h t List.mem_cons_self)
  | case3 s t r ih =>
    rw [List.forall_mem_cons] at h
    simp only [String.toList_append, List.forall_mem_append]
    exact ⟨⟨isDottedPart_of_isName h.1, by decide⟩, ih h.2⟩

theorem ProperType.isDottedPart {package full : String} {typeName : List String}
    (h : ProperType package typeName full) (hp : isDotted package.toList) :
    ∀ c ∈ full.toList, isDottedPart c := by
  have hj := isDottedPart_joined h.names
  have hdot : ∀ c ∈ ".".toList, Schema.isDottedPart c := by decide
  rw [h.full, fullName]
  split
  · rw [String.toList_append, List.forall_mem_append]
    exact ⟨hdot, hj⟩
  · simp only [String.toList_append, List.forall_mem_append]
    exact ⟨⟨⟨hdot, isDottedPart_of_isDotted hp⟩, hdot⟩, hj⟩

end FullNames

/-- A graph of spelled files. -/
def Graph.Spelled (g : Graph) : Prop :=
  ∀ f ∈ g.files, f.Spelled

instance (g : Graph) : Decidable g.Spelled :=
  inferInstanceAs (Decidable (∀ f ∈ g.files, f.Spelled))

section Graphs

variable {raws : List Descriptor.File} {g : Graph}

/-- The types of the files of a built graph have proper names. -/
theorem Graph.Spelled.proper (hs : g.Spelled) (hg : Graph.build raws = .ok g) {f : File}
    (hf : f ∈ g.files) : (∀ m ∈ f.messages, ProperType f.package m.typeName m.fullName) ∧
      ∀ e ∈ f.enums, ProperType f.package e.typeName e.fullName := by
  obtain ⟨i, hi, rfl⟩ := List.mem_iff_getElem.mp hf
  obtain ⟨raw, f₀, -, h₀, hx⟩ := Graph.build_ok hg (List.getElem?_eq_getElem hi)
  have hspelled := hs _ hf
  rw [hx] at hspelled ⊢
  have h₀s : f₀.Spelled := ⟨hspelled.name, hspelled.package, hspelled.javaPackage,
    hspelled.outerClassname, hspelled.messages, hspelled.enums, hspelled.extensions⟩
  have hproper := File.ofDescriptor_proper h₀ h₀s
  exact hproper

theorem Graph.file_of_lt {i : Nat} (hi : i < g.files.length) : g.file i ∈ g.files := by
  simp [Graph.file, hi]

/-- The full name of a message, in the graph or not, is within a line. -/
theorem Graph.Spelled.message_fullName (hs : g.Spelled) (hg : Graph.build raws = .ok g)
    (id : MessageId) : ∀ c ∈ (g.message id).fullName.toList, isDottedPart c := by
  rw [Graph.message]
  rcases Nat.lt_or_ge id.index (g.file id.file).messages.length with hi | hi
  · have hf : g.file id.file ∈ g.files := by
      rcases Nat.lt_or_ge id.file g.files.length with hlt | hge
      · exact Graph.file_of_lt hlt
      · simp [Graph.file, hge] at hi
    exact ((hs.proper hg hf).1 _ (File.message_mem hi)).isDottedPart (hs _ hf).package
  · rw [File.message_of_le hi]
    simp

/-- A name that is resolved is the full name of a type. -/
theorem Graph.Spelled.resolve (hs : g.Spelled) (hg : Graph.build raws = .ok g) {name : String}
    {ref : TypeRef} (h : g.index.resolve name = .ok ref) : ∀ c ∈ name.toList, isDottedPart c := by
  unfold Index.resolve at h
  split at h
  · next hl =>
    obtain ⟨before, after, he, -⟩ := List.lookup_eq_some_iff.mp hl
    have hmem : (name, _) ∈ g.index.entries := he ▸ List.mem_append_right _ List.mem_cons_self
    obtain ⟨f, hf, hmem⟩ := List.mem_flatMap.mp hmem
    obtain ⟨hm, he⟩ := hs.proper hg hf
    rcases List.mem_append.mp hmem with hmem | hmem
    · obtain ⟨k, hk, hn⟩ := List.mem_mapIdx.mp hmem
      rw [← (Prod.mk.inj hn).1]
      exact (hm _ (List.getElem_mem hk)).isDottedPart (hs f hf).package
    · obtain ⟨k, hk, hn⟩ := List.mem_mapIdx.mp hmem
      rw [← (Prod.mk.inj hn).1]
      exact (he _ (List.getElem_mem hk)).isDottedPart (hs f hf).package
  · simp at h

end Graphs

end ProtoJava.Schema
