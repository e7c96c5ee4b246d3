import Mathlib.Data.List.Flatten
import Mathlib.Data.List.Nodup
import Mathlib.Data.List.Pairwise
import Mathlib.Order.Basic

/-! # Looking up keys

The first entry of a key counts: the only one where keys are distinct, and the least one where
entries stand in ascending order.
-/

namespace ProtoJava

variable {α β : Type} [BEq α] [LawfulBEq α] {l : List (α × β)} {key : α} {value : β}

theorem mem_of_lookup (h : l.lookup key = some value) : (key, value) ∈ l := by
  obtain ⟨before, after, rfl, -⟩ := List.lookup_eq_some_iff.mp h
  simp

theorem not_mem_of_lookup (h : l.lookup key = none) : key ∉ l.map (·.1) := by
  intro hm
  obtain ⟨e, he, rfl⟩ := List.mem_map.mp hm
  simpa using List.lookup_eq_none_iff.mp h e he

theorem lookup_eq_none (h : key ∉ l.map (·.1)) : l.lookup key = none := by
  rw [List.lookup_eq_none_iff]
  rintro ⟨first, x⟩ hp
  have : key ≠ first := by
    rintro rfl
    exact h (List.mem_map_of_mem hp)
  simpa using this

theorem lookup_of_mem (hd : (l.map (·.1)).Nodup) (h : (key, value) ∈ l) :
    l.lookup key = some value := by
  cases hl : l.lookup key with
  | none => exact absurd (List.mem_map_of_mem h) (not_mem_of_lookup hl)
  | some value' => exact congrArg some (congrArg Prod.snd
      (List.inj_on_of_nodup_map hd (mem_of_lookup hl) h rfl))

theorem lookup_filter {p : α → Bool} (h : p key) :
    (l.filter fun entry => p entry.1).lookup key = l.lookup key := by
  induction l with
  | nil => rfl
  | cons entry rest ih =>
    obtain ⟨first, x⟩ := entry
    by_cases he : key = first
    · subst he
      simp [h]
    · have hb : (key == first) = false := by simpa using he
      rw [List.filter_cons]
      split <;> simp [List.lookup_cons, hb, ih]

theorem lookup_map {α' : Type} [BEq α'] [LawfulBEq α'] {k : α → α'} (hk : Function.Injective k)
    (l : List (α × β)) (key : α) :
    (l.map fun e => (k e.1, e.2)).lookup (k key) = l.lookup key := by
  induction l with
  | nil => rfl
  | cons e l ih =>
    have hkey : (k key == k e.1) = (key == e.1) := by
      rw [Bool.eq_iff_iff, beq_iff_eq, beq_iff_eq]
      exact hk.eq_iff
    rw [List.map_cons, List.lookup_cons, List.lookup_cons, hkey, ih]

/-- Where values stand in ascending order, a key is looked up to the least of its values. -/
theorem lookup_eq_some_iff_least {γ : Type} [Preorder γ] {rank : β → γ}
    (hl : l.Pairwise fun a b => rank a.2 < rank b.2) :
    l.lookup key = some value ↔
      (key, value) ∈ l ∧ ∀ other, (key, other) ∈ l → rank value ≤ rank other := by
  -- what follows the found entry comes after it, and no other entry of the key precedes it
  have hleast : ∀ {found other}, l.lookup key = some found → (key, other) ∈ l →
      other = found ∨ rank found < rank other := by
    intro found other h ho
    obtain ⟨earlier, later, rfl, hne⟩ := List.lookup_eq_some_iff.mp h
    rcases List.mem_append.mp ho with ho | ho
    · exact absurd (hne _ ho) (by simp)
    · rcases List.mem_cons.mp ho with ho | ho
      · exact Or.inl (congrArg Prod.snd ho)
      · exact Or.inr (List.rel_of_pairwise_cons (List.pairwise_append.mp hl).2.1 ho)
  constructor
  · intro h
    refine ⟨mem_of_lookup h, fun other ho => ?_⟩
    rcases hleast h ho with rfl | hlt
    · exact le_refl _
    · exact hlt.le
  · rintro ⟨hmem, hle⟩
    cases h : l.lookup key with
    | none => exact absurd (List.mem_map_of_mem hmem) (not_mem_of_lookup h)
    | some found =>
      rcases hleast h hmem with rfl | hlt
      · rfl
      · exact absurd hlt (hle found (mem_of_lookup h)).not_gt

/-- An entry of several lists that have no entry twice is in one of them. -/
theorem eq_of_mem_flatMap {ι γ : Type} {l : List ι} {f : ι → List γ} (h : (l.flatMap f).Nodup)
    {i j : ι} (hi : i ∈ l) (hj : j ∈ l) {x : γ} (hx : x ∈ f i) (hx' : x ∈ f j) : i = j := by
  have : Std.Symm (Function.onFun List.Disjoint f) := ⟨fun _ _ => List.disjoint_symm⟩
  by_contra hne
  exact (List.nodup_flatMap.mp h).2.forall hi hj hne hx hx'

end ProtoJava
