import Mathlib.Data.List.Nodup
import ProtoJava.Proofs.Outcome
import ProtoJava.Proofs.Schema.Linking
import ProtoJava.Schema.Graph

/-! # Files of built graphs

In the files of a graph that has been built, declarations know their positions, a message stands
after the message it is nested in, and every message lists what names it as its parent.
-/

namespace ProtoJava.Schema

/-- The fields, oneofs and extensions of a message know their positions. -/
structure Message.Numbered (m : Message) : Prop where
  fields : m.fields.map (·.index) = List.range m.fields.length
  oneofs : m.oneofs.map (·.index) = List.range m.oneofs.length
  extensions : m.extensions.map (·.index) = List.range m.extensions.length

/-- An element that knows its position is found there. -/
theorem getElem?_index {α : Type} {l : List α} {index : α → Nat}
    (h : l.map index = List.range l.length) {a : α} (ha : a ∈ l) : l[index a]? = some a := by
  obtain ⟨k, hk, rfl⟩ := List.mem_iff_getElem.mp ha
  have hi := List.getElem_of_eq h (i := k) (by simpa using hk)
  rw [List.getElem_map, List.getElem_range] at hi
  rw [hi, List.getElem?_eq_getElem hk]

/-- A list that is read off the elements by their positions. -/
theorem eq_map_of_index {α β : Type} {l : List α} {index : α → Nat} {l' : List β} {g : α → β}
    (h : l.map index = List.range l.length) (hl : l'.length = l.length)
    (hg : ∀ a ∈ l, l'[index a]? = some (g a)) : l' = l.map g := by
  refine List.ext_getElem (by simpa using hl) fun k hk hk' => ?_
  have hkl : k < l.length := hl ▸ hk
  have hi := List.getElem_of_eq h (i := k) (by simpa using hkl)
  rw [List.getElem_map, List.getElem_range] at hi
  have hk := hg l[k] (List.getElem_mem hkl)
  rw [hi] at hk
  simpa using (List.getElem?_eq_some_iff.mp hk).2

theorem map_mapIdx {α β γ : Type} (f : Nat → α → β) (g : β → γ) (l : List α) :
    (l.mapIdx f).map g = l.mapIdx fun i a => g (f i a) := by
  apply List.ext_getElem <;> simp

theorem mapIdx_eq_map {α β : Type} (f : α → β) (l : List α) :
    (l.mapIdx fun _ a => f a) = l.map f := by
  apply List.ext_getElem <;> simp

/-- Elements made of those of a list, in relation to them. -/
theorem forall₂_mapIdx {α β : Type} {R : β → α → Prop} {f : Nat → α → β} {l : List α}
    (h : ∀ i a, l[i]? = some a → R (f i a) a) : List.Forall₂ R (l.mapIdx f) l := by
  rw [List.forall₂_iff_get]
  refine ⟨by simp, fun i hi hi' => ?_⟩
  simpa using h i _ (List.getElem?_eq_getElem hi')

section Numbered

variable {m : Message} {f f' : Field} {o o' : Oneof}

theorem Message.Numbered.oneof_ext (hm : m.Numbered) (ho : o ∈ m.oneofs) (ho' : o' ∈ m.oneofs)
    (h : o.index = o'.index) : o = o' :=
  List.inj_on_of_nodup_map (hm.oneofs ▸ List.nodup_range) ho ho' h

theorem Message.Numbered.field_ext (hm : m.Numbered) (hf : f ∈ m.fields) (hf' : f' ∈ m.fields)
    (h : f.index = f'.index) : f = f' :=
  List.inj_on_of_nodup_map (hm.fields ▸ List.nodup_range) hf hf' h

theorem Message.mem_oneofs_of_union? (h : m.union? f = some o) :
    o ∈ m.oneofs ∧ o.synthetic = false ∧ ∃ i, f.oneofIndex = some i ∧ m.oneofs[i]? = some o := by
  obtain ⟨h, hs⟩ := Option.filter_eq_some_iff.mp h
  obtain ⟨i, hi, ho⟩ := Option.bind_eq_some_iff.mp h
  exact ⟨List.mem_of_getElem? ho, by simpa using hs, i, hi, ho⟩

end Numbered

/-- Declarations know their positions, and messages know what is nested in them. -/
structure File.Linked (f : File) : Prop where
  numbered : ∀ m ∈ f.messages, m.Numbered
  extensions : f.extensions.map (·.index) = List.range f.extensions.length
  parent_lt : ∀ i p, (f.message i).parent = some p → p < i
  enum_parent_lt : ∀ i p, (f.enumType i).parent = some p → p < f.messages.length
  nested : ∀ i < f.messages.length,
    (f.message i).nested = childrenOf (f.messages.map (·.parent)) i
  enums : ∀ i < f.messages.length, (f.message i).enums = childrenOf (f.enums.map (·.parent)) i

/-- Message `j` is message `i` or encloses it. -/
inductive File.Encloses (f : File) (j : Nat) : Nat → Prop
  | self : f.Encloses j j
  | parent {i p : Nat} : (f.message i).parent = some p → f.Encloses j p → f.Encloses j i

/-- A message of a file that is no map entry and is inside none. -/
inductive File.Shown (f : File) : Nat → Prop
  | top {i : Nat} : i < f.messages.length → (f.message i).mapEntry = false →
      (f.message i).parent = none → f.Shown i
  | nested {i p : Nat} : i < f.messages.length → (f.message i).mapEntry = false →
      (f.message i).parent = some p → f.Shown p → f.Shown i

section Flattening

/-- The parent of a node hangs from the stem or is an earlier node of the same walk. -/
def ParentsBefore (outer : Option Nat) (start : Nat) (nodes : List Node) : Prop :=
  ∀ k node, nodes[k]? = some node →
    node.parent = outer ∨ ∃ p, node.parent = some p ∧ start ≤ p ∧ p < start + k

theorem ParentsBefore.append {outer : Option Nat} {start : Nat} {a b : List Node}
    (ha : ParentsBefore outer start a) (hb : ParentsBefore outer (start + a.length) b) :
    ParentsBefore outer start (a ++ b) := by
  intro k node hk
  rcases Nat.lt_or_ge k a.length with hlt | hge
  · rw [List.getElem?_append_left hlt] at hk
    exact ha k node hk
  · rw [List.getElem?_append_right hge] at hk
    rcases hb _ node hk with h | ⟨p, h, hs, hp⟩
    · exact Or.inl h
    · exact Or.inr ⟨p, h, by omega, by omega⟩

mutual

theorem flattenMessage_parents (stem : Stem) (start index : Nat) :
    ∀ m, ParentsBefore stem.parent start (flattenMessage stem start index m)
  | .mk name fields extensions nested enums ranges oneofs mapEntry deprecated => by
    intro k node hk
    rw [flattenMessage] at hk
    cases k with
    | zero =>
      obtain rfl := Option.some.inj hk
      exact Or.inl rfl
    | succ k =>
      have hn := flattenMessages_parents _ (start + 1) 0 nested k node hk
      rcases hn with h | ⟨p, h, hs, hp⟩
      · exact Or.inr ⟨start, h, Nat.le_refl _, by omega⟩
      · exact Or.inr ⟨p, h, by omega, by omega⟩

theorem flattenMessages_parents (stem : Stem) (start index : Nat) :
    ∀ ms, ParentsBefore stem.parent start (flattenMessages stem start index ms)
  | [] => by
    intro k node hk
    simp [flattenMessages] at hk
  | m :: r => by
    rw [flattenMessages]
    exact (flattenMessage_parents stem start index m).append
      (flattenMessages_parents stem _ (index + 1) r)

end

end Flattening

theorem fieldsOf_index (parent : Path) (tag : Int) (raw : List Descriptor.Field) :
    (fieldsOf parent tag raw).map (·.index) = List.range (fieldsOf parent tag raw).length := by
  apply List.ext_getElem <;> simp [fieldsOf, Field.ofDescriptor]

theorem Message.ofNode_numbered (package : String) (nodes : List Node) (node : Node) :
    (Message.ofNode package nodes node).Numbered where
  fields := fieldsOf_index ..
  oneofs := by apply List.ext_getElem <;> simp [Message.ofNode, Oneof.ofName]
  extensions := fieldsOf_index ..

/-- The messages and enums of a file are those of its nodes, with their children attached. -/
theorem File.ofDescriptor_ok {id : Nat} {raw : Descriptor.File} {f : File}
    (h : File.ofDescriptor id raw = .ok f) :
    let nodes := flattenMessages .top 0 0 raw.messages
    f.id = id ∧ f.enums = enumsOf raw.package raw.enums nodes ∧
    f.extensions = fieldsOf [] Descriptor.Tag.fileExtension raw.extensions ∧
    (∀ e ∈ f.enums, ∀ p, e.parent = some p → p < nodes.length) ∧
    f.messages = nodes.mapIdx fun i node =>
      { Message.ofNode raw.package nodes node with
        nested := childrenOf (nodes.map (·.parent)) i
        enums := childrenOf (f.enums.map (·.parent)) i } := by
  intro nodes
  simp only [File.ofDescriptor, bind_eq_ok_iff, pure_eq_ok_iff, linked_eq_ok_iff] at h
  obtain ⟨nested, hn, messages, hm, rfl⟩ := h
  obtain ⟨hp, rfl⟩ := linkEnums_ok hm
  obtain rfl := linkNested_ok hn
  refine ⟨rfl, rfl, rfl, by simpa using hp, ?_⟩
  apply List.ext_getElem <;> simp [Message.ofNode, Function.comp_def, nodes]

theorem File.message_eq_getElem {f : File} {i : Nat} (h : i < f.messages.length) :
    f.message i = f.messages[i] := by
  simp [File.message, h]

theorem File.message_mem {f : File} {i : Nat} (h : i < f.messages.length) :
    f.message i ∈ f.messages := by
  rw [File.message_eq_getElem h]
  exact List.getElem_mem h

theorem File.exists_message {f : File} {m : Message} (h : m ∈ f.messages) :
    ∃ i < f.messages.length, f.message i = m := by
  obtain ⟨i, hi, rfl⟩ := List.mem_iff_getElem.mp h
  exact ⟨i, hi, File.message_eq_getElem hi⟩

theorem File.message_of_le {f : File} {i : Nat} (h : f.messages.length ≤ i) :
    f.message i = {} := by
  simp [File.message, h]

theorem File.enumType_of_le {f : File} {i : Nat} (h : f.enums.length ≤ i) :
    f.enumType i = {} := by
  simp [File.enumType, h]

theorem File.enumType_eq_getElem {f : File} {i : Nat} (h : i < f.enums.length) :
    f.enumType i = f.enums[i] := by
  simp [File.enumType, h]

theorem File.enumType_mem {f : File} {i : Nat} (h : i < f.enums.length) :
    f.enumType i ∈ f.enums := by
  rw [File.enumType_eq_getElem h]
  exact List.getElem_mem h

theorem File.exists_enumType {f : File} {e : EnumType} (h : e ∈ f.enums) :
    ∃ i < f.enums.length, f.enumType i = e := by
  obtain ⟨i, hi, rfl⟩ := List.mem_iff_getElem.mp h
  exact ⟨i, hi, File.enumType_eq_getElem hi⟩

theorem File.ofDescriptor_linked {id : Nat} {raw : Descriptor.File} {f : File}
    (h : File.ofDescriptor id raw = .ok f) : f.Linked := by
  obtain ⟨-, he, hx, hp, hm⟩ := File.ofDescriptor_ok h
  have hl : f.messages.length = (flattenMessages .top 0 0 raw.messages).length := by simp [hm]
  have hparents : f.messages.map (·.parent) =
      (flattenMessages .top 0 0 raw.messages).map (·.parent) := by
    rw [hm]
    apply List.ext_getElem <;> simp [Message.ofNode]
  constructor
  case numbered =>
    intro m hmem
    rw [hm] at hmem
    obtain ⟨i, hi, rfl⟩ := List.mem_mapIdx.mp hmem
    obtain ⟨h₁, h₂, h₃⟩ := Message.ofNode_numbered raw.package
      (flattenMessages .top 0 0 raw.messages) (flattenMessages .top 0 0 raw.messages)[i]
    exact ⟨h₁, h₂, h₃⟩
  case extensions =>
    rw [hx]
    exact fieldsOf_index ..
  case parent_lt =>
    intro i p h
    rcases Nat.lt_or_ge i f.messages.length with hi | hi
    · have hn : i < (flattenMessages .top 0 0 raw.messages).length := hl ▸ hi
      have hk := flattenMessages_parents .top 0 0 raw.messages i _ (List.getElem?_eq_getElem hn)
      have hq : (flattenMessages .top 0 0 raw.messages)[i].parent = some p := by
        simpa [File.message_eq_getElem hi, hm, Message.ofNode] using h
      rcases hk with hk | ⟨q, hk, -, hlt⟩
      · exact absurd (hq.symm.trans hk) (by simp [Stem.top])
      · rw [hq] at hk
        obtain rfl := Option.some.inj hk
        omega
    · simp [File.message_of_le hi] at h
  case enum_parent_lt =>
    intro i p h
    rcases Nat.lt_or_ge i f.enums.length with hi | hi
    · rw [hl]
      refine hp _ (List.getElem_mem hi) p ?_
      simpa [File.enumType, hi] using h
    · simp [File.enumType_of_le hi] at h
  case nested =>
    intro i hi
    rw [hparents, File.message_eq_getElem hi]
    simp [hm]
  case enums =>
    intro i hi
    rw [File.message_eq_getElem hi]
    simp [hm]

section Nesting

variable {f : File} {i j p : Nat}

theorem File.Linked.message_numbered (hl : f.Linked) (hi : i < f.messages.length) :
    (f.message i).Numbered :=
  hl.numbered _ (File.message_mem hi)

theorem File.Linked.enclosing_top (h : (f.message i).parent = none) : f.enclosing i = [i] := by
  rw [File.enclosing, h]

theorem File.Linked.enclosing_nested (hl : f.Linked) (h : (f.message i).parent = some p) :
    f.enclosing i = i :: f.enclosing p := by
  rw [File.enclosing, h]
  simp [hl.parent_lt i p h]

theorem File.Linked.mem_enclosing_iff (hl : f.Linked) : j ∈ f.enclosing i ↔ f.Encloses j i := by
  constructor
  · intro h
    induction i using Nat.strongRecOn with
    | ind i ih =>
      cases hp : (f.message i).parent with
      | none =>
        rw [enclosing_top hp, List.mem_singleton] at h
        exact h ▸ .self
      | some p =>
        rw [hl.enclosing_nested hp] at h
        rcases List.mem_cons.mp h with rfl | h
        · exact .self
        · exact .parent hp (ih p (hl.parent_lt i p hp) h)
  · intro h
    induction h with
    | self => rw [File.enclosing]; split <;> [simp; (split <;> simp)]
    | parent hp _ ih =>
      rw [hl.enclosing_nested hp]
      exact List.mem_cons_of_mem _ ih

theorem File.Linked.le_of_encloses (hl : f.Linked) (h : f.Encloses j i) : j ≤ i := by
  induction h with
  | self => exact Nat.le_refl _
  | parent hp _ ih => exact Nat.le_trans ih (Nat.le_of_lt (hl.parent_lt _ _ hp))

theorem File.Shown.lt (h : f.Shown i) : i < f.messages.length := by
  cases h <;> assumption

theorem File.Shown.mapEntry (h : f.Shown i) : (f.message i).mapEntry = false := by
  cases h <;> assumption

theorem File.Shown.parent (h : f.Shown i) (hp : (f.message i).parent = some p) : f.Shown p := by
  cases h with
  | top _ _ hn => simp [hn] at hp
  | nested _ _ hq hs =>
    rw [hq] at hp
    exact Option.some.inj hp ▸ hs

theorem File.exists_message_iff {P : Message → Prop} :
    (∃ m, f.messages[j]? = some m ∧ P m) ↔ j < f.messages.length ∧ P (f.message j) := by
  constructor
  · rintro ⟨m, hm, h⟩
    obtain ⟨hj, rfl⟩ := List.getElem?_eq_some_iff.mp hm
    exact ⟨hj, by rwa [File.message_eq_getElem hj]⟩
  · rintro ⟨hj, h⟩
    exact ⟨f.messages[j], List.getElem?_eq_getElem hj, by rwa [← File.message_eq_getElem hj]⟩

theorem File.exists_enumType_iff {P : EnumType → Prop} :
    (∃ e, f.enums[j]? = some e ∧ P e) ↔ j < f.enums.length ∧ P (f.enumType j) := by
  constructor
  · rintro ⟨e, he, h⟩
    obtain ⟨hj, rfl⟩ := List.getElem?_eq_some_iff.mp he
    exact ⟨hj, by rwa [File.enumType_eq_getElem hj]⟩
  · rintro ⟨hj, h⟩
    exact ⟨f.enums[j], List.getElem?_eq_getElem hj, by rwa [← File.enumType_eq_getElem hj]⟩

theorem File.Linked.mem_nested_iff (hl : f.Linked) (hi : i < f.messages.length) :
    j ∈ (f.message i).nested ↔ j < f.messages.length ∧ (f.message j).parent = some i := by
  rw [hl.nested i hi, mem_childrenOf, List.getElem?_map, Option.map_eq_some_iff]
  exact exists_message_iff

theorem File.Linked.mem_enums_iff (hl : f.Linked) (hi : i < f.messages.length) :
    j ∈ (f.message i).enums ↔ j < f.enums.length ∧ (f.enumType j).parent = some i := by
  rw [hl.enums i hi, mem_childrenOf, List.getElem?_map, Option.map_eq_some_iff]
  exact exists_enumType_iff

theorem File.topMessages_nodup (f : File) : f.topMessages.Nodup :=
  positions_nodup ..

theorem File.topEnums_nodup (f : File) : f.topEnums.Nodup :=
  positions_nodup ..

theorem File.mem_topMessages_iff :
    j ∈ f.topMessages ↔ j < f.messages.length ∧ (f.message j).parent = none := by
  rw [File.topMessages, mem_positions_iff (p := fun m : Message => m.parent.isNone)]
  simp only [Option.isNone_iff_eq_none]
  exact exists_message_iff

theorem File.mem_topEnums_iff :
    j ∈ f.topEnums ↔ j < f.enums.length ∧ (f.enumType j).parent = none := by
  rw [File.topEnums, mem_positions_iff (p := fun e : EnumType => e.parent.isNone)]
  simp only [Option.isNone_iff_eq_none]
  exact exists_enumType_iff

end Nesting

/-- The files of a built graph are those of its descriptors, up to what others hand on to them. -/
theorem Graph.build_ok {raws : List Descriptor.File} {g : Graph} (h : Graph.build raws = .ok g)
    {i : Nat} {f : File} (hf : g.files[i]? = some f) :
    ∃ raw f₀, raws[i]? = some raw ∧ File.ofDescriptor i raw = .ok f₀ ∧
      f = { f₀ with reexports := f.reexports } := by
  simp only [Graph.build, bind_eq_ok_iff, pure_eq_ok_iff, mapM_eq_ok_iff] at h
  obtain ⟨files, hw, files', hx, rfl⟩ := h
  obtain ⟨hi, rfl⟩ := List.getElem?_eq_some_iff.mp hf
  have hlen := hw.length_eq
  have hlen' := hx.length_eq
  simp only [List.length_zipIdx] at hlen
  simp only [List.length_zip, ← hlen, Nat.min_self] at hlen'
  have hi' : i < raws.length := hlen' ▸ hi
  have hwrap := hw.get (i := i) (by simpa using hi') (hlen ▸ hi')
  have hext := hx.get (i := i) (by simpa [← hlen] using hi') hi
  simp only [List.get_eq_getElem, List.getElem_zipIdx, List.getElem_zip, Nat.zero_add,
    File.withReexports, bind_eq_ok_iff, pure_eq_ok_iff] at hwrap hext
  obtain ⟨types, -, hext⟩ := hext
  refine ⟨raws[i], files[i], List.getElem?_eq_getElem hi', hwrap, ?_⟩
  rw [← hext]

theorem Graph.build_linked {raws : List Descriptor.File} {g : Graph}
    (h : Graph.build raws = .ok g) (i : Nat) : (g.file i).Linked := by
  rcases Nat.lt_or_ge i g.files.length with hi | hi
  · obtain ⟨raw, f₀, -, h₀, hf⟩ := Graph.build_ok h (List.getElem?_eq_getElem hi)
    have hl := File.ofDescriptor_linked h₀
    have hg : g.file i = g.files[i] := by simp [Graph.file, hi]
    rw [hg, hf]
    exact ⟨hl.numbered, hl.extensions, hl.parent_lt, hl.enum_parent_lt, hl.nested, hl.enums⟩
  · have hg : g.file i = {} := by simp [Graph.file, hi]
    rw [hg]
    constructor <;> simp [File.message, File.enumType]

end ProtoJava.Schema
