import Mathlib.Data.List.Forall2
import ProtoJava.Proofs.Schema.Built

/-! # The walk over nested messages

The nodes of a file are the messages of its descriptor in preorder. The nodes that name a node as
their parent are the messages nested in it, in the order of their declaration.
-/

namespace ProtoJava.Schema

section Preorder

mutual

/-- A message and the messages nested in it, outer ones first. -/
def preorder : Descriptor.Message → List Descriptor.Message
  | .mk name fields extensions nested enums ranges oneofs mapEntry deprecated =>
    ⟨name, fields, extensions, nested, enums, ranges, oneofs, mapEntry, deprecated⟩ ::
      preorders nested

/-- Sibling messages and the messages nested in them. -/
def preorders : List Descriptor.Message → List Descriptor.Message
  | [] => []
  | m :: r => preorder m ++ preorders r

end

mutual

theorem flattenMessage_raws (stem : Stem) (start index : Nat) :
    ∀ m, (flattenMessage stem start index m).map (·.raw) = preorder m
  | .mk name fields extensions nested enums ranges oneofs mapEntry deprecated => by
    rw [flattenMessage, List.map_cons, flattenMessages_raws _ _ _ nested, preorder]
    rfl

theorem flattenMessages_raws (stem : Stem) (start index : Nat) :
    ∀ ms, (flattenMessages stem start index ms).map (·.raw) = preorders ms
  | [] => rfl
  | m :: r => by
    rw [flattenMessages, List.map_append, flattenMessage_raws, flattenMessages_raws _ _ _ r,
      preorders]

end

end Preorder

section Stems

/-- Every node stands under the stem of the walk or under that of another node. -/
def Grown (stem : Stem) (start : Nat) (nodes : List Node) : Prop :=
  ∀ node ∈ nodes, node = stem.node node.index node.raw ∨
    ∃ (k : Nat) (outer : Node), nodes[k]? = some outer ∧
      node = (outer.stem (start + k)).node node.index node.raw

theorem Grown.append {stem : Stem} {start : Nat} {a b : List Node} (ha : Grown stem start a)
    (hb : Grown stem (start + a.length) b) : Grown stem start (a ++ b) := by
  intro node hn
  rcases List.mem_append.mp hn with hn | hn
  · rcases ha node hn with h | ⟨k, outer, hk, h⟩
    · exact Or.inl h
    · refine Or.inr ⟨k, outer, ?_, h⟩
      rw [List.getElem?_append_left (List.getElem?_eq_some_iff.mp hk).1, hk]
  · rcases hb node hn with h | ⟨k, outer, hk, h⟩
    · exact Or.inl h
    · refine Or.inr ⟨a.length + k, outer, ?_, by rwa [← Nat.add_assoc]⟩
      rw [List.getElem?_append_right (Nat.le_add_right ..), Nat.add_sub_cancel_left, hk]

mutual

theorem flattenMessage_grown (stem : Stem) (start index : Nat) :
    ∀ m, Grown stem start (flattenMessage stem start index m)
  | .mk name fields extensions nested enums ranges oneofs mapEntry deprecated => by
    rw [flattenMessage]
    intro node hn
    rcases List.mem_cons.mp hn with rfl | hn
    · exact Or.inl rfl
    · rcases flattenMessages_grown _ (start + 1) 0 nested node hn with h | ⟨k, outer, hk, h⟩
      · exact Or.inr ⟨0, _, rfl, h⟩
      · exact Or.inr ⟨k + 1, outer, hk, by rwa [Nat.add_right_comm] at h⟩

theorem flattenMessages_grown (stem : Stem) (start index : Nat) :
    ∀ ms, Grown stem start (flattenMessages stem start index ms)
  | [] => fun _ h => absurd h List.not_mem_nil
  | m :: r => by
    rw [flattenMessages]
    exact (flattenMessage_grown stem start index m).append
      (flattenMessages_grown stem _ (index + 1) r)

end

end Stems

section Children

/-- What the nodes that name `p` as their parent declare, each with its position among siblings. -/
def declaredUnder (nodes : List Node) (p : Option Nat) : List (Descriptor.Message × Nat) :=
  (nodes.filter (·.parent = p)).map fun node => (node.raw, node.index)

theorem declaredUnder_append (a b : List Node) (p : Option Nat) :
    declaredUnder (a ++ b) p = declaredUnder a p ++ declaredUnder b p := by
  simp [declaredUnder]

theorem declaredUnder_eq_nil {nodes : List Node} {p : Option Nat}
    (h : ∀ node ∈ nodes, node.parent ≠ p) : declaredUnder nodes p = [] := by
  simpa [declaredUnder] using h

/-- The node that children hang from stands before the walk. -/
def Stem.Before (stem : Stem) (start : Nat) : Prop :=
  ∀ p, stem.parent = some p → p < start

variable {stem : Stem} {start : Nat} {nodes : List Node}

theorem ParentsBefore.declaredUnder_of_le (h : ParentsBefore stem.parent start nodes)
    (hs : stem.Before start) {p : Nat} (hp : start + nodes.length ≤ p) :
    declaredUnder nodes (some p) = [] := by
  apply declaredUnder_eq_nil
  intro node hn hq
  obtain ⟨k, hk, rfl⟩ := List.mem_iff_getElem.mp hn
  rcases h k _ (List.getElem?_eq_getElem hk) with h | ⟨q, h, -, hlt⟩
  · have := hs p (h.symm.trans hq)
    omega
  · obtain rfl := Option.some.inj (h.symm.trans hq)
    omega

theorem ParentsBefore.declaredUnder_of_lt (h : ParentsBefore stem.parent start nodes)
    {p : Nat} (hp : p < start) (hne : stem.parent ≠ some p) :
    declaredUnder nodes (some p) = [] := by
  apply declaredUnder_eq_nil
  intro node hn hq
  obtain ⟨k, hk, rfl⟩ := List.mem_iff_getElem.mp hn
  rcases h k _ (List.getElem?_eq_getElem hk) with h | ⟨q, h, hle, -⟩
  · exact hne (h.symm.trans hq)
  · obtain rfl := Option.some.inj (h.symm.trans hq)
    omega

theorem ParentsBefore.declaredUnder_stem (h : ParentsBefore (some start) (start + 1) nodes)
    (hs : stem.Before start) : declaredUnder nodes stem.parent = [] := by
  apply declaredUnder_eq_nil
  intro node hn hq
  obtain ⟨k, hk, rfl⟩ := List.mem_iff_getElem.mp hn
  rcases h k _ (List.getElem?_eq_getElem hk) with h | ⟨q, h, hle, -⟩
  · have := hs start (hq.symm.trans h)
    omega
  · have := hs q (hq.symm.trans h)
    omega

/-- Under every node of a walk stands what its message nests. -/
def Nests (start : Nat) (nodes : List Node) : Prop :=
  ∀ k node, nodes[k]? = some node →
    declaredUnder nodes (some (start + k)) = node.raw.nested.zipIdx

mutual

theorem flattenMessage_under (stem : Stem) (start : Nat) (hs : stem.Before start) (index : Nat) :
    ∀ m, declaredUnder (flattenMessage stem start index m) stem.parent = [(m, index)]
  | .mk name fields extensions nested enums ranges oneofs mapEntry deprecated => by
    rw [flattenMessage]
    have hn := flattenMessages_parents
      ((stem.node index ⟨name, fields, extensions, nested, enums, ranges, oneofs, mapEntry,
        deprecated⟩).stem start) (start + 1) 0 nested
    rw [← List.singleton_append, declaredUnder_append, hn.declaredUnder_stem hs]
    simp [declaredUnder, Stem.node]

theorem flattenMessages_under (stem : Stem) (start : Nat) (hs : stem.Before start) (index : Nat) :
    ∀ ms, declaredUnder (flattenMessages stem start index ms) stem.parent = ms.zipIdx index
  | [] => rfl
  | m :: r => by
    rw [flattenMessages, declaredUnder_append, flattenMessage_under _ _ hs, List.zipIdx_cons,
      flattenMessages_under _ _ (fun p hp => Nat.lt_add_right _ (hs p hp)) (index + 1) r]
    rfl

end

mutual

theorem flattenMessage_nests (stem : Stem) (start : Nat) (hs : stem.Before start) (index : Nat) :
    ∀ m, Nests start (flattenMessage stem start index m)
  | .mk name fields extensions nested enums ranges oneofs mapEntry deprecated => by
    rw [flattenMessage]
    generalize hnode : stem.node index
      ⟨name, fields, extensions, nested, enums, ranges, oneofs, mapEntry, deprecated⟩ = node
    have hparent : ∀ k, node.parent ≠ some (start + k) := by
      intro k hk
      have := hs (start + k) (by rwa [← hnode] at hk)
      omega
    have hbefore : (node.stem start).Before (start + 1) := by
      rintro p ⟨⟩
      exact Nat.lt_succ_self _
    intro k inner hk
    have hhead : declaredUnder [node] (some (start + k)) = [] :=
      declaredUnder_eq_nil (List.forall_mem_singleton.mpr (hparent k))
    rw [← List.singleton_append, declaredUnder_append, hhead, List.nil_append]
    cases k with
    | zero =>
      obtain rfl := Option.some.inj hk
      rw [Nat.add_zero, show node.raw.nested = nested from hnode ▸ rfl]
      exact flattenMessages_under _ _ hbefore 0 nested
    | succ k =>
      have := flattenMessages_nests _ _ hbefore 0 nested k inner hk
      rwa [Nat.add_right_comm] at this

theorem flattenMessages_nests (stem : Stem) (start : Nat) (hs : stem.Before start) (index : Nat) :
    ∀ ms, Nests start (flattenMessages stem start index ms)
  | [] => fun _ _ h => absurd h (by simp [flattenMessages])
  | m :: r => by
    rw [flattenMessages]
    have hb : stem.Before (start + (flattenMessage stem start index m).length) :=
      fun p hp => Nat.lt_add_right _ (hs p hp)
    intro k node hk
    rw [declaredUnder_append]
    rcases Nat.lt_or_ge k (flattenMessage stem start index m).length with hlt | hge
    · rw [List.getElem?_append_left hlt] at hk
      rw [flattenMessage_nests _ _ hs index m k node hk,
        (flattenMessages_parents stem _ (index + 1) r).declaredUnder_of_lt (by omega)
          (fun h => absurd (hs _ h) (by omega)), List.append_nil]
    · rw [List.getElem?_append_right hge] at hk
      have := flattenMessages_nests _ _ hb (index + 1) r _ node hk
      rw [show start + (flattenMessage stem start index m).length +
        (k - (flattenMessage stem start index m).length) = start + k by omega] at this
      rw [this, (flattenMessage_parents stem start index m).declaredUnder_of_le hs (by omega),
        List.nil_append]

end

end Children

end ProtoJava.Schema
