import ProtoJava.Proofs.Schema.Placing

/-! # Aliases

Of the values of an enum with one number, the first one counts, and the others are its aliases.
-/

namespace ProtoJava.Schema

namespace EnumType

/-- Position `j` is that of the first value with a number. -/
structure IsFirst (e : EnumType) (number : Int) (j : Nat) : Prop where
  number_eq : e.values[j]?.map (·.number) = some number
  le : ∀ k, e.values[k]?.map (·.number) = some number → j ≤ k

/-- A value is an alias of the first one with its number, but the first one is none. -/
def Aliased (e : EnumType) : Prop :=
  ∀ i v, e.values[i]? = some v →
    ∃ j, e.IsFirst v.number j ∧ v.aliasOf = if j < i then some j else none

section Values

variable {e : EnumType} {i j : Nat} {v : EnumValue} {number : Int}

theorem IsFirst.unique (h : e.IsFirst number i) (h' : e.IsFirst number j) : i = j :=
  Nat.le_antisymm (h.le j h'.number_eq) (h'.le i h.number_eq)

theorem IsFirst.exists_value (h : e.IsFirst number j) :
    ∃ v, e.values[j]? = some v ∧ v.number = number :=
  Option.map_eq_some_iff.mp h.number_eq

variable (h : e.Aliased)

include h

theorem Aliased.aliasOf_eq (hv : e.values[i]? = some v) (hj : e.IsFirst v.number j) :
    v.aliasOf = if j < i then some j else none := by
  obtain ⟨k, hk, hv⟩ := h i v hv
  rw [hv, hk.unique hj]

theorem Aliased.isFirst_iff (hv : e.values[i]? = some v) :
    e.IsFirst v.number i ↔ v.aliasOf = none := by
  constructor
  · intro hi
    rw [h.aliasOf_eq hv hi, if_neg (Nat.lt_irrefl i)]
  · intro hnone
    obtain ⟨j, hj, hv'⟩ := h i v hv
    have hle : j ≤ i := hj.le i (by rw [hv, Option.map_some])
    have hlt : ¬ j < i := by
      intro hlt
      rw [if_pos hlt, hnone] at hv'
      exact absurd hv' (by simp)
    rwa [Nat.le_antisymm hle (Nat.le_of_not_lt hlt)] at hj

/-- Every number of a value has a first value. -/
theorem Aliased.exists_isFirst (hn : number ∈ e.values.map (·.number)) :
    ∃ j, e.IsFirst number j := by
  obtain ⟨v, hv, rfl⟩ := List.mem_map.mp hn
  obtain ⟨i, hi⟩ := List.mem_iff_getElem?.mp hv
  obtain ⟨j, hj, -⟩ := h i v hi
  exact ⟨j, hj⟩

end Values

theorem aliased_of_values {e : EnumType} {path : Path} {raw : List Descriptor.EnumValue}
    (h : e.values = enumValues path raw) : e.Aliased := by
  have hnumber : ∀ k : Nat, e.values[k]?.map (·.number) = raw[k]?.map (·.number) := by
    intro k
    rw [h, enumValues, List.getElem?_mapIdx, Option.map_map]
    rfl
  intro i v hv
  obtain ⟨w, hw, rfl⟩ : ∃ w, raw[i]? = some w ∧ _ = v := by
    rw [h, enumValues, List.getElem?_mapIdx, Option.map_eq_some_iff] at hv
    exact hv
  cases hj : raw.findIdx? (·.number = w.number) with
  | none =>
    have hne := List.findIdx?_eq_none_iff.mp hj w (List.mem_of_getElem? hw)
    simp at hne
  | some j =>
    obtain ⟨hlt, hat, hbefore⟩ := List.findIdx?_eq_some_iff_getElem.mp hj
    refine ⟨j, ⟨?_, fun k hk => ?_⟩, ?_⟩
    · rw [hnumber, List.getElem?_eq_getElem hlt]
      exact congrArg some (of_decide_eq_true hat)
    · rw [hnumber] at hk
      obtain ⟨x, hx, hxn⟩ := Option.map_eq_some_iff.mp hk
      obtain ⟨hk', rfl⟩ := List.getElem?_eq_some_iff.mp hx
      by_contra hlt
      exact hbefore k (Nat.lt_of_not_le hlt) (decide_eq_true hxn)
    · simp [Option.filter]

end EnumType

/-- The aliases in a built graph are right. -/
theorem Graph.build_aliased {raws : List Descriptor.File} {g : Graph}
    (hg : Graph.build raws = .ok g) (id : EnumId) : (g.enumType id).Aliased := by
  rw [Graph.enumType]
  by_cases hi : id.index < (g.file id.file).enums.length
  · have hfile : id.file < g.files.length := by
      by_contra hn
      simp [Graph.file, Nat.le_of_not_lt hn] at hi
    have hraw : raws[id.file]? = some _ :=
      List.getElem?_eq_getElem (Graph.build_length hg ▸ hfile)
    obtain ⟨k, f, hf, he⟩ := Graph.build_describes_file hg hraw
    have hmem := File.enumType_mem hi
    rw [he] at hmem ⊢
    obtain ⟨r, -, hr⟩ := forall₂_exists (File.ofDescriptor_faithful hf).enums hmem
    exact EnumType.aliased_of_values hr.values
  · rw [File.enumType_of_le (Nat.le_of_not_lt hi)]
    intro i v hv
    simp at hv

end ProtoJava.Schema
