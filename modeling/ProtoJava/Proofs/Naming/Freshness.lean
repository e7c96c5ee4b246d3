import Mathlib.Data.List.Nodup
import ProtoJava.Naming.Registry
import ProtoJava.Proofs.Lookup
import ProtoJava.Proofs.Outcome
import ProtoJava.Proofs.Text.Decimals

/-! # Fresh names

Every answer of a registry is a name that was free, so the answers in one scope are pairwise
distinct, and names granted to distinct roles are distinct.
-/

namespace ProtoJava.Naming

/-- A name, or the name with a number after it. -/
def IsVariant (name x : String) : Prop :=
  x = name ∨ ∃ n : Nat, x = name ++ toString n

theorem IsVariant.of_numbered {name x : String} (h : IsVariant name x) {P : String → Prop}
    (hP : ∀ s (n : Nat), P s → P (s ++ toString n)) (hn : P name) : P x := by
  rcases h with rfl | ⟨n, rfl⟩
  · exact hn
  · exact hP name n hn

namespace Registry

theorem numbered_injective (name : String) :
    Function.Injective fun n : Nat => name ++ toString n := by
  intro m n h
  exact Text.toString_nat_injective ((String.append_right_inj name).mp h)

/-- If the search ends at a taken variant, it has passed over taken variants only. -/
theorem contains_of_freeNumber {r : Registry} {name : String} {count n : Nat}
    (h : r.contains (name ++ toString (r.freeNumber name count n))) {k : Nat} (hk : k ≤ count) :
    r.contains (name ++ toString (n + k)) := by
  induction count generalizing n k with
  | zero =>
    obtain rfl : k = 0 := Nat.le_zero.mp hk
    exact h
  | succ count ih =>
    rw [freeNumber] at h
    split at h
    · next hn =>
      cases k with
      | zero => exact hn
      | succ k =>
        have := ih h (Nat.le_of_succ_le_succ hk)
        rwa [Nat.add_right_comm, Nat.add_assoc] at this
    · next hn => exact absurd h hn

/-- The numbered variants that are looked at outnumber the taken names. -/
theorem exists_free_variant (r : Registry) (name : String) (n : Nat) :
    ∃ k ≤ r.taken.length, r.contains (name ++ toString (n + k)) = false := by
  by_contra hn
  push Not at hn
  let variants := (List.range (r.taken.length + 1)).map fun k => name ++ toString (n + k)
  have hd : variants.Nodup := by
    refine List.nodup_range.map fun a b h => ?_
    exact Nat.add_left_cancel (numbered_injective name h)
  have hs : variants ⊆ r.taken := by
    intro x hx
    obtain ⟨k, hk, rfl⟩ := List.mem_map.mp hx
    have := hn k (Nat.lt_succ_iff.mp (List.mem_range.mp hk))
    simpa [contains] using this
  have := hd.length_le_of_subset hs
  simp only [variants, List.length_map, List.length_range] at this
  omega

theorem answer_free (r : Registry) (name : String) : r.contains (r.answer name) = false := by
  unfold answer
  split
  · obtain ⟨k, hk, hf⟩ := r.exists_free_variant name 1
    by_contra ht
    have := contains_of_freeNumber (Bool.not_eq_false _ ▸ ht) hk
    rw [hf] at this
    exact Bool.noConfusion this
  · next h => exact Bool.not_eq_true _ ▸ h

theorem claimAll_cons (r : Registry) (name : String) (rest : List String) :
    (r.claimAll (name :: rest)).1 = r.answer name :: ((r.claim name).2.claimAll rest).1 := rfl

theorem claimAll_fresh {r : Registry} {names : List String} {x : String}
    (h : x ∈ (r.claimAll names).1) : r.contains x = false := by
  induction names generalizing r with
  | nil => simp [claimAll] at h
  | cons name rest ih =>
    rw [claimAll_cons] at h
    rcases List.mem_cons.mp h with rfl | h
    · exact r.answer_free name
    · have := ih h
      rw [contains_claim, Bool.or_eq_false_iff] at this
      exact this.2

theorem claimAll_nodup (r : Registry) (names : List String) : (r.claimAll names).1.Nodup := by
  induction names generalizing r with
  | nil => exact List.nodup_nil
  | cons name rest ih =>
    rw [claimAll_cons]
    refine List.nodup_cons.mpr ⟨fun h => ?_, ih _⟩
    have := claimAll_fresh h
    simp [contains_claim] at this

theorem claimAll_append (r : Registry) (a b : List String) :
    (r.claimAll (a ++ b)).1 = (r.claimAll a).1 ++ ((r.claimAll a).2.claimAll b).1 := by
  induction a generalizing r with
  | nil => rfl
  | cons name a ih => simp [claimAll, ih]

variable {ρ : Type}

/-- Later requests leave the names for earlier ones as they are. -/
theorem grant_append (r : Registry) (a b : List (ρ × String)) :
    (r.grant (a ++ b)).1 = (r.grant a).1 ++ ((r.claimAll (a.map (·.2))).2.grant b).1 := by
  simp only [grant, List.map_append, claimAll_append]
  exact List.zip_append (by simp [claimAll_length])

theorem grant_names (r : Registry) (requests : List (ρ × String)) :
    (r.grant requests).1.map (·.2) = (r.claimAll (requests.map (·.2))).1 := by
  simp [grant, List.map_snd_zip, claimAll_length]

theorem grant_fresh {r : Registry} {requests : List (ρ × String)} {role : ρ} {x : String}
    (h : (role, x) ∈ (r.grant requests).1) : r.contains x = false := by
  refine claimAll_fresh (?_ : x ∈ (r.claimAll (requests.map (·.2))).1)
  rw [← grant_names]
  exact List.mem_map_of_mem h

/-- A name is granted to one role at most. -/
theorem role_eq_of_grant {r : Registry} {requests : List (ρ × String)} {role role' : ρ}
    {x : String} (h : (role, x) ∈ (r.grant requests).1)
    (h' : (role', x) ∈ (r.grant requests).1) : role = role' := by
  have hd : ((r.grant requests).1.map (·.2)).Nodup := by
    rw [grant_names]
    exact claimAll_nodup ..
  exact congrArg Prod.fst (List.inj_on_of_nodup_map hd h h' rfl)

section Variants

theorem answer_isVariant (r : Registry) (name : String) : IsVariant name (r.answer name) := by
  unfold answer
  split
  · exact Or.inr ⟨_, rfl⟩
  · exact Or.inl rfl

/-- Names are answered in order, each by a variant of it. -/
theorem claimAll_isVariant (r : Registry) (names : List String) :
    List.Forall₂ IsVariant names (r.claimAll names).1 := by
  induction names generalizing r with
  | nil => exact List.Forall₂.nil
  | cons name rest ih => exact List.Forall₂.cons (r.answer_isVariant name) (ih _)

theorem claimAll_getElem?_isVariant (r : Registry) {names : List String} {k : Nat}
    {name x : String} (hn : names[k]? = some name) (hx : (r.claimAll names).1[k]? = some x) :
    IsVariant name x :=
  List.forall₂_zip (r.claimAll_isVariant names)
    (List.mem_iff_getElem?.mpr ⟨k, List.getElem?_zip_eq_some.mpr ⟨hn, hx⟩⟩)

theorem grant_isVariant {r : Registry} {requests : List (ρ × String)} {entry : ρ × String}
    (h : entry ∈ (r.grant requests).1) :
    ∃ name, (entry.1, name) ∈ requests ∧ IsVariant name entry.2 := by
  induction requests generalizing r with
  | nil => exact absurd h List.not_mem_nil
  | cons request rest ih =>
    rcases List.mem_cons.mp h with rfl | h
    · exact ⟨request.2, List.mem_cons_self, r.answer_isVariant request.2⟩
    · obtain ⟨name, hm, hv⟩ := ih h
      exact ⟨name, List.mem_cons_of_mem _ hm, hv⟩

variable {P : String → Prop} (hP : ∀ s (n : Nat), P s → P (s ++ toString n))

include hP

/-- What holds of a name, and of names that a number is put after, holds of the answer for it. -/
theorem answer_of_numbered (r : Registry) {name : String} (h : P name) : P (r.answer name) :=
  (r.answer_isVariant name).of_numbered hP h

theorem claimAll_of_numbered {r : Registry} {names : List String} (h : ∀ name ∈ names, P name) :
    ∀ x ∈ (r.claimAll names).1, P x := by
  intro x hx
  obtain ⟨name, hm, hv⟩ := forall₂_exists_right (r.claimAll_isVariant names) hx
  exact hv.of_numbered hP (h name hm)

theorem grant_of_numbered {r : Registry} {requests : List (ρ × String)}
    (h : ∀ request ∈ requests, P request.2) : ∀ entry ∈ (r.grant requests).1, P entry.2 := by
  intro entry he
  obtain ⟨name, hm, hv⟩ := grant_isVariant he
  exact hv.of_numbered hP (h _ hm)

end Variants

end Registry

variable {ρ : Type} [BEq ρ] [LawfulBEq ρ]

/-- A role that has an entry is looked up to one of its entries. -/
theorem lookup_eq_some_nameFor {table : List (ρ × String)} {role : ρ}
    (h : role ∈ table.map (·.1)) :
    table.lookup role = some (nameFor table role) ∧ (role, nameFor table role) ∈ table := by
  have hs : (table.lookup role).isSome := by simpa using h
  obtain ⟨x, hx⟩ := Option.isSome_iff_exists.mp hs
  obtain ⟨before, after, rfl, -⟩ := List.lookup_eq_some_iff.mp hx
  have hn : nameFor (before ++ (role, x) :: after) role = x := by rw [nameFor, hx]; rfl
  rw [hn]
  exact ⟨hx, by simp⟩

/-- A role that only one of several tables has is looked up there. -/
theorem lookup_flatten {tables : List (List (ρ × String))} {role : ρ} {k : Nat}
    (hk : k < tables.length)
    (h : ∀ j (hj : j < tables.length), j ≠ k → role ∉ tables[j].map (·.1)) :
    tables.flatten.lookup role = tables[k].lookup role := by
  induction tables generalizing k with
  | nil => simp at hk
  | cons table rest ih =>
    rw [List.flatten_cons, List.lookup_append]
    cases k with
    | zero =>
      have hr : rest.flatten.lookup role = none := by
        refine lookup_eq_none fun hm => ?_
        rw [List.map_flatten, List.mem_flatten] at hm
        obtain ⟨roles, ht, hm⟩ := hm
        obtain ⟨table', hmem, rfl⟩ := List.mem_map.mp ht
        obtain ⟨j, hj, rfl⟩ := List.mem_iff_getElem.mp hmem
        exact h (j + 1) (Nat.succ_lt_succ hj) (Nat.succ_ne_zero j) hm
      simp [hr]
    | succ k =>
      have ht : table.lookup role = none :=
        lookup_eq_none (h 0 (Nat.succ_pos _) (Nat.succ_ne_zero k).symm)
      rw [ht, Option.none_or]
      exact ih (Nat.lt_of_succ_lt_succ hk) fun j hj hne =>
        h (j + 1) (Nat.succ_lt_succ hj) fun he => hne (Nat.succ.inj he)

section Granted

variable {r : Registry} {requests : List (ρ × String)}

theorem lookup_grant {role : ρ} (h : role ∈ requests.map (·.1)) :
    (r.grant requests).1.lookup role = some (nameFor (r.grant requests).1 role) :=
  (lookup_eq_some_nameFor (by rwa [Registry.grant_roles])).1

theorem nameFor_mem_grant {role : ρ} (h : role ∈ requests.map (·.1)) :
    (role, nameFor (r.grant requests).1 role) ∈ (r.grant requests).1 :=
  (lookup_eq_some_nameFor (by rwa [Registry.grant_roles])).2

/-- The name granted for a requested role was free before. -/
theorem nameFor_fresh {role : ρ} (h : role ∈ requests.map (·.1)) :
    r.contains (nameFor (r.grant requests).1 role) = false :=
  Registry.grant_fresh (nameFor_mem_grant h)

/-- Distinct requested roles are granted distinct names. -/
theorem nameFor_nodup {roles : List ρ} (hd : roles.Nodup)
    (hr : ∀ role ∈ roles, role ∈ requests.map (·.1)) :
    (roles.map (nameFor (r.grant requests).1)).Nodup := by
  refine hd.map_on fun a ha b hb h => ?_
  have hm := nameFor_mem_grant (r := r) (hr a ha)
  rw [h] at hm
  exact Registry.role_eq_of_grant hm (nameFor_mem_grant (hr b hb))

end Granted

/-- Roles that tell which of several distinct things they are for are distinct. -/
theorem roles_nodup {α ρ : Type} (roles : Nat → List ρ) {index : α → Nat} {l : List α}
    (hl : (l.map index).Nodup) (hn : ∀ i, (roles i).Nodup)
    (hi : ∀ i j, ∀ role ∈ roles i, role ∈ roles j → i = j) :
    (l.flatMap fun a => roles (index a)).Nodup := by
  refine List.nodup_flatMap.mpr ⟨fun _ _ => hn _, ?_⟩
  exact (List.pairwise_map.mp hl).imp fun hne role h h' => hne (hi _ _ role h h')

/-- Pairwise distinct names, none of which is reserved or among `others`. -/
def Distinct (others given : List String) : Prop :=
  given.Nodup ∧ ∀ x ∈ given, x ∉ others ∧ isReserved x = false

theorem contains_reserving (names : List String) (x : String) :
    (Registry.reserving.reserve names).contains x = (names.contains x || isReserved x) := by
  rw [Registry.contains_reserve]
  simp [Registry.reserving, Registry.contains, isReserved]

/-- Names granted in a registry with reserved names are distinct and not reserved. -/
theorem nameFor_distinct {requests : List (ρ × String)}
    {names : List String} {roles : List ρ} (hd : roles.Nodup)
    (hr : ∀ role ∈ roles, role ∈ requests.map (·.1)) {given : List String}
    (h : given = roles.map (nameFor ((Registry.reserving.reserve names).grant requests).1)) :
    Distinct names given := by
  subst h
  refine ⟨nameFor_nodup hd hr, fun x hx => ?_⟩
  obtain ⟨role, hrole, rfl⟩ := List.mem_map.mp hx
  have hf := nameFor_fresh (r := Registry.reserving.reserve names) (hr role hrole)
  simpa [contains_reserving] using hf

end ProtoJava.Naming
