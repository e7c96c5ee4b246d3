import ProtoJava.Proofs.Naming.Freshness

/-! # Histories of a registry

A scope is filled by claims and by names that are taken without being asked for, in any order. The
search for a free variant has no bound of its own: it ends because there are more variants than
taken names. Whatever is taken stays taken, so no name is given twice.
-/

namespace ProtoJava.Naming

namespace Registry

/-- The loop of a claim for a taken name: from number `n` on, it stops at number `k`. -/
inductive Seeks (r : Registry) (name : String) : Nat → Nat → Prop
  | free {n : Nat} : r.contains (name ++ toString n) = false → r.Seeks name n n
  | taken {n k : Nat} : r.contains (name ++ toString n) → r.Seeks name (n + 1) k →
      r.Seeks name n k

/-- A claim comes to an answer: a free name is left as it is, and a taken one gets the number that
the loop stops at. -/
inductive Grants (r : Registry) (name : String) : String → Prop
  | plain : r.contains name = false → r.Grants name name
  | numbered {k : Nat} : r.contains name → r.Seeks name 1 k → r.Grants name (name ++ toString k)

/-- What is done to a registry. -/
inductive Operation
  | claim (name : String)
  | reserve (names : List String)
deriving Repr, DecidableEq, Inhabited

/-- The answers to the claims of a history, and the registry after it. -/
def run (r : Registry) : List Operation → List String × Registry
  | [] => ([], r)
  | .claim name :: rest =>
    let (given, r) := r.claim name
    let (others, r) := r.run rest
    (given :: others, r)
  | .reserve names :: rest => (r.reserve names).run rest

/-- A name is taken at the start of a history or by one of its operations. -/
def TakenBy (r : Registry) (history : List Operation) (x : String) : Prop :=
  x ∈ r.taken ∨ x ∈ (r.run history).1 ∨ ∃ names, .reserve names ∈ history ∧ x ∈ names

/-- After a history, a claim for a name is answered with `x`. -/
structure Answered (r : Registry) (before : List Operation) (name x : String) : Prop where
  ends : ∀ y, (r.run before).2.Grants name y ↔ y = x
  fresh : ¬ r.TakenBy before x
  plain : ¬ r.TakenBy before name → x = name
  numbered : r.TakenBy before name → ∃ n ≥ 1, x = name ++ toString n ∧
    ∀ k ≥ 1, k < n → r.TakenBy before (name ++ toString k)
  taken : ∀ y, ((r.run before).2.claim name).2.contains y ↔ y = x ∨ r.TakenBy before y
  kept : ∀ after, (((r.run before).2.claim name).2.run after).2.contains x ∧
    x ∉ (((r.run before).2.claim name).2.run after).1

section Search

variable {r : Registry} {name x : String} {n k : Nat}

theorem Seeks.unique {k' : Nat} (h : r.Seeks name n k) (h' : r.Seeks name n k') : k = k' := by
  induction h with
  | free h =>
    cases h' with
    | free => rfl
    | taken ht => exact absurd (h.symm.trans ht) Bool.false_ne_true
  | taken ht _ ih =>
    cases h' with
    | free h' => exact absurd (h'.symm.trans ht) Bool.false_ne_true
    | taken _ h' => exact ih h'

/-- The loop passes over taken variants only. -/
theorem Seeks.least (h : r.Seeks name n k) :
    n ≤ k ∧ ∀ m ≥ n, m < k → r.contains (name ++ toString m) := by
  induction h with
  | free => exact ⟨Nat.le_refl _, fun m hm hlt => absurd hm (Nat.not_le_of_lt hlt)⟩
  | taken ht _ ih =>
    obtain ⟨hle, htaken⟩ := ih
    refine ⟨Nat.le_of_succ_le hle, fun m hm hlt => ?_⟩
    rcases Nat.eq_or_lt_of_le hm with rfl | hm
    · exact ht
    · exact htaken m hm hlt

/-- The loop stops where a bounded search does, if something free is within the bound. -/
theorem seeks_freeNumber {count : Nat}
    (h : ∃ j ≤ count, r.contains (name ++ toString (n + j)) = false) :
    r.Seeks name n (r.freeNumber name count n) := by
  induction count generalizing n with
  | zero =>
    obtain ⟨j, hj, hfree⟩ := h
    obtain rfl := Nat.le_zero.mp hj
    exact .free hfree
  | succ count ih =>
    rw [freeNumber]
    split
    · next ht =>
      refine .taken ht (ih ?_)
      obtain ⟨j, hj, hfree⟩ := h
      cases j with
      | zero => exact absurd (hfree.symm.trans ht) Bool.false_ne_true
      | succ j =>
        refine ⟨j, Nat.le_of_succ_le_succ hj, ?_⟩
        rwa [Nat.add_right_comm, Nat.add_assoc]
    · next hf => exact .free (Bool.not_eq_true _ ▸ hf)

theorem Grants.unique {y : String} (h : r.Grants name x) (h' : r.Grants name y) : x = y := by
  cases h with
  | plain h =>
    cases h' with
    | plain => rfl
    | numbered ht => exact absurd (h.symm.trans ht) Bool.false_ne_true
  | numbered ht hk =>
    cases h' with
    | plain h' => exact absurd (h'.symm.trans ht) Bool.false_ne_true
    | numbered _ hk' => rw [hk.unique hk']

theorem grants_answer (r : Registry) (name : String) : r.Grants name (r.answer name) := by
  unfold answer
  split
  · next h => exact .numbered h (seeks_freeNumber (r.exists_free_variant name 1))
  · next h => exact .plain (Bool.not_eq_true _ ▸ h)

/-- Every claim comes to an answer, and to one only. -/
theorem grants_iff : r.Grants name x ↔ x = r.answer name := by
  constructor
  · exact fun h => h.unique (r.grants_answer name)
  · rintro rfl
    exact r.grants_answer name

/-- A taken name gets the least number that makes it a free one. -/
theorem answer_numbered (h : r.contains name) : ∃ n ≥ 1, r.answer name = name ++ toString n ∧
    ∀ k ≥ 1, k < n → r.contains (name ++ toString k) := by
  have hseeks := seeks_freeNumber (r.exists_free_variant name 1)
  obtain ⟨hle, htaken⟩ := hseeks.least
  exact ⟨_, hle, if_pos h, htaken⟩

end Search

section Runs

variable {r : Registry} {history : List Operation} {x : String}

/-- A registry after a history has the names that it had, the answers, and what was reserved. -/
theorem run_contains (r : Registry) (history : List Operation) (x : String) :
    (r.run history).2.contains x ↔ r.TakenBy history x := by
  unfold TakenBy
  induction history generalizing r with
  | nil => simp [run, contains]
  | cons op rest ih =>
    cases op with
    | claim name =>
      rw [run, ih]
      simp [claim, or_assoc, or_left_comm]
    | reserve names =>
      rw [run, ih]
      simp [reserve, or_and_right, exists_or, or_assoc, or_left_comm]

/-- Whatever a history gives was free before it. -/
theorem run_fresh (h : x ∈ (r.run history).1) : r.contains x = false := by
  induction history generalizing r with
  | nil => exact absurd h List.not_mem_nil
  | cons op rest ih =>
    cases op with
    | claim name =>
      rcases List.mem_cons.mp h with rfl | h
      · exact r.answer_free name
      · have hfree := ih (r := (r.claim name).2) h
        rw [contains_claim, Bool.or_eq_false_iff] at hfree
        exact hfree.2
    | reserve names =>
      have hfree := ih (r := r.reserve names) h
      rw [contains_reserve, Bool.or_eq_false_iff] at hfree
      exact hfree.2

theorem run_nodup (r : Registry) (history : List Operation) : (r.run history).1.Nodup := by
  induction history generalizing r with
  | nil => exact List.nodup_nil
  | cons op rest ih =>
    cases op with
    | claim name =>
      refine List.nodup_cons.mpr ⟨fun h => ?_, ih _⟩
      have hfree := run_fresh (r := (r.claim name).2) h
      rw [contains_claim, beq_self_eq_true, Bool.true_or] at hfree
      exact Bool.noConfusion hfree
    | reserve names => exact ih (r.reserve names)

theorem run_append (r : Registry) (before after : List Operation) :
    (r.run (before ++ after)).1 = (r.run before).1 ++ ((r.run before).2.run after).1 := by
  induction before generalizing r with
  | nil => rfl
  | cons op before ih =>
    cases op with
    | claim name => exact congrArg (r.answer name :: ·) (ih (r.claim name).2)
    | reserve names => exact ih (r.reserve names)

theorem run_answered (r : Registry) (before : List Operation) (name : String) :
    r.Answered before name ((r.run before).2.answer name) := by
  have hcontains : ∀ y, (r.run before).2.contains y = true ↔ r.TakenBy before y :=
    r.run_contains before
  have hclaimed : ∀ y, ((r.run before).2.claim name).2.contains y ↔
      y = (r.run before).2.answer name ∨ r.TakenBy before y := by
    intro y
    rw [contains_claim, Bool.or_eq_true, beq_iff_eq, hcontains]
  constructor
  case ends => exact fun y => grants_iff
  case fresh =>
    rw [← hcontains, answer_free]
    exact Bool.false_ne_true
  case plain =>
    intro h
    rw [← hcontains] at h
    exact answer_of_free (Bool.not_eq_true _ ▸ h)
  case numbered =>
    simp only [← hcontains]
    exact answer_numbered
  case taken => exact hclaimed
  case kept =>
    intro after
    have hx := (hclaimed _).mpr (Or.inl rfl)
    refine ⟨(run_contains ..).mpr (Or.inl (by simpa [contains] using hx)), fun hm => ?_⟩
    exact absurd ((run_fresh hm).symm.trans hx) Bool.false_ne_true

/-- Over any history the answers are pairwise distinct. Each claim comes to an answer that was not
taken, which is the name asked for or, if that is taken, the name with the least number that makes
it free; the answer is all that becomes taken, and it stays so. -/
theorem histories_fresh (r : Registry) :
    (∀ history, (r.run history).1.Nodup ∧
      ∀ x, (r.run history).2.contains x ↔ r.TakenBy history x) ∧
    ∀ before name after, ∃ x later,
      (r.run (before ++ .claim name :: after)).1 = (r.run before).1 ++ x :: later ∧
      r.Answered before name x := by
  constructor
  · exact fun history => ⟨r.run_nodup history, r.run_contains history⟩
  · intro before name after
    exact ⟨_, _, r.run_append before (.claim name :: after), r.run_answered before name⟩

/-- An answer with a number stands in the way of a name that is spelled like it. -/
example : (empty.run [.claim "foo", .claim "foo", .reserve ["foo2"], .claim "foo",
    .claim "foo1"]).1 = ["foo", "foo1", "foo3", "foo11"] := by
  decide

end Runs

end Registry

end ProtoJava.Naming
