import Mathlib.Data.List.Forall2
import ProtoJava.Error

/-! # Outcomes of lists

A step on each element of a list succeeds as a whole when it succeeds on every element.
-/

namespace ProtoJava

variable {ε α β : Type}

theorem bind_eq_ok_iff {x : Except ε α} {f : α → Except ε β} {b : β} :
    x >>= f = .ok b ↔ ∃ a, x = .ok a ∧ f a = .ok b := by
  cases x <;> simp [bind, Except.bind]

theorem pure_eq_ok_iff {a b : α} : (pure a : Except ε α) = .ok b ↔ a = b := by
  simp [pure, Except.pure]

theorem map_eq_ok_iff {x : Except ε α} {f : α → β} {b : β} :
    x.map f = .ok b ↔ ∃ a, x = .ok a ∧ f a = b := by
  cases x <;> simp [Except.map]

theorem ofSchema_eq_ok_iff {x : Except Schema.Error α} {a : α} :
    ofSchema x = .ok a ↔ x = .ok a := by
  cases x <;> simp [ofSchema]

theorem mapM_eq_ok_iff {f : α → Except ε β} {l : List α} {r : List β} :
    l.mapM f = .ok r ↔ List.Forall₂ (fun a b => f a = .ok b) l r := by
  induction l generalizing r with
  | nil => cases r <;> simp [pure, Except.pure]
  | cons a l ih =>
    simp only [List.mapM_cons, bind_eq_ok_iff, pure_eq_ok_iff, ih, List.forall₂_cons_left_iff]
    constructor
    · rintro ⟨b, hb, bs, hbs, rfl⟩
      exact ⟨b, bs, hb, hbs, rfl⟩
    · rintro ⟨b, bs, hb, hbs, rfl⟩
      exact ⟨b, hb, bs, hbs, rfl⟩

theorem forM_eq_ok_iff {f : α → Except ε Unit} {l : List α} :
    l.forM f = .ok () ↔ ∀ a ∈ l, f a = .ok () := by
  induction l with
  | nil => exact iff_of_true rfl (List.forall_mem_nil _)
  | cons a l ih =>
    rw [show (a :: l).forM f = f a >>= fun _ => l.forM f from List.forM_cons, bind_eq_ok_iff,
      List.forall_mem_cons, ← ih]
    constructor
    · rintro ⟨⟨⟩, h⟩
      exact h
    · exact fun h => ⟨(), h⟩

theorem bind_eq_error_iff {x : Except ε α} {f : α → Except ε β} {e : ε} :
    x >>= f = .error e ↔ x = .error e ∨ ∃ a, x = .ok a ∧ f a = .error e := by
  cases x <;> simp [bind, Except.bind]

/-- A step on each element fails as a whole as it does on the first element it fails on. -/
theorem mapM_eq_error_iff {f : α → Except ε β} {l : List α} {e : ε} :
    l.mapM f = .error e ↔ ∃ before a after, l = before ++ a :: after ∧
      (∀ b ∈ before, ∃ c, f b = .ok c) ∧ f a = .error e := by
  induction l with
  | nil => simp [pure, Except.pure]
  | cons a l ih =>
    simp only [List.mapM_cons, bind_eq_error_iff, ih]
    constructor
    · rintro (h | ⟨b, hb, ⟨before, c, after, rfl, hbefore, hc⟩ | ⟨_, _, h⟩⟩)
      · exact ⟨[], a, l, rfl, List.forall_mem_nil _, h⟩
      · exact ⟨a :: before, c, after, rfl, List.forall_mem_cons.mpr ⟨⟨b, hb⟩, hbefore⟩, hc⟩
      · exact nomatch h
    · rintro ⟨before, c, after, hl, hbefore, hc⟩
      cases before with
      | nil =>
        obtain ⟨rfl, rfl⟩ := List.cons.inj hl
        exact Or.inl hc
      | cons b before =>
        obtain ⟨rfl, rfl⟩ := List.cons.inj hl
        obtain ⟨⟨d, hd⟩, hbefore⟩ := List.forall_mem_cons.mp hbefore
        exact Or.inr ⟨d, hd, Or.inl ⟨before, c, after, rfl, hbefore, hc⟩⟩

/-- A result that is no error. -/
theorem exists_eq_ok_iff {x : Except ε α} : (∃ a, x = .ok a) ↔ ∀ e, x ≠ .error e := by
  cases x <;> simp

/-- What is related to an element on the left. -/
theorem forall₂_exists {R : α → β → Prop} {l : List α} {r : List β} (h : List.Forall₂ R l r)
    {a : α} (ha : a ∈ l) : ∃ b ∈ r, R a b := by
  induction h with
  | nil => simp at ha
  | cons hab _ ih =>
    rcases List.mem_cons.mp ha with rfl | ha
    · exact ⟨_, List.mem_cons_self, hab⟩
    · obtain ⟨b, hb, h⟩ := ih ha
      exact ⟨b, List.mem_cons_of_mem _ hb, h⟩

/-- What is related to an element on the right. -/
theorem forall₂_exists_right {R : α → β → Prop} {l : List α} {r : List β}
    (h : List.Forall₂ R l r) {b : β} (hb : b ∈ r) : ∃ a ∈ l, R a b :=
  forall₂_exists h.flip hb

/-- A step succeeds on all elements if it succeeds on each. -/
theorem exists_mapM_iff {f : α → Except ε β} {l : List α} :
    (∃ r, l.mapM f = .ok r) ↔ ∀ a ∈ l, ∃ b, f a = .ok b := by
  constructor
  · rintro ⟨r, hr⟩ a ha
    obtain ⟨b, -, hb⟩ := forall₂_exists (mapM_eq_ok_iff.mp hr) ha
    exact ⟨b, hb⟩
  · intro h
    apply exists_eq_ok_iff.mpr
    intro e he
    obtain ⟨before, a, after, rfl, -, ha⟩ := mapM_eq_error_iff.mp he
    obtain ⟨b, hb⟩ := h a (by simp)
    exact nomatch hb.symm.trans ha

/-- Related lists stay related where both are paired with the same values. -/
theorem forall₂_zip {γ : Type} {R : α → β → Prop} {l : List α} {r : List β}
    (h : List.Forall₂ R l r) {values : List γ} (hlength : l.length ≤ values.length) :
    List.Forall₂ (fun a b => R a b ∧ ∃ c, (a, c) ∈ l.zip values ∧ (b, c) ∈ r.zip values) l r := by
  induction h generalizing values with
  | nil => exact .nil
  | cons hab _ ih =>
    cases values with
    | nil => simp at hlength
    | cons c values =>
      refine .cons ⟨hab, c, List.mem_cons_self, List.mem_cons_self⟩ ?_
      refine (ih (by simpa using hlength)).imp ?_
      rintro a b ⟨hr, d, ha, hb⟩
      exact ⟨hr, d, List.mem_cons_of_mem _ ha, List.mem_cons_of_mem _ hb⟩

theorem exists_eq_ok {x : Except ε α} (h : x.isOk) : ∃ a, x = .ok a := by
  cases x with
  | error e => exact Bool.noConfusion h
  | ok a => exact ⟨a, rfl⟩

/-- A result that has a property, from an evaluation. -/
theorem exists_eq_ok_of_any {x : Except ε α} {p : α → Bool} (h : x.toOption.any p) :
    ∃ a, x = .ok a ∧ p a := by
  cases x with
  | error e => exact Bool.noConfusion h
  | ok a => exact ⟨a, rfl, h⟩

/-- Two computations run alike if their first steps do, and what follows on each result. -/
theorem bind_eq_map {α' β' : Type} {x : Except ε α} {x' : Except ε α'} {f : α → Except ε β}
    {f' : α' → Except ε β'} {r : α → α'} {q : β → β'} (hx : x' = x.map r)
    (hf : ∀ a, x = .ok a → f' (r a) = (f a).map q) : x' >>= f' = (x >>= f).map q := by
  subst hx
  cases x with
  | error e => rfl
  | ok a => exact hf a rfl

theorem mapM_eq_map {β' : Type} {f : α → Except ε β} {f' : α → Except ε β'} {q : β → β'}
    {l : List α} (h : ∀ a ∈ l, f' a = (f a).map q) : l.mapM f' = (l.mapM f).map (List.map q) := by
  induction l with
  | nil => rfl
  | cons a l ih =>
    rw [List.forall_mem_cons] at h
    rw [List.mapM_cons, List.mapM_cons]
    exact bind_eq_map h.1 fun b _ => bind_eq_map (ih h.2) fun bs _ => rfl

theorem mapM_congr {m : Type → Type} [Monad m] [LawfulMonad m] {f f' : α → m β} {l : List α}
    (h : ∀ a ∈ l, f' a = f a) : l.mapM f' = l.mapM f := by
  induction l with
  | nil => rfl
  | cons a l ih =>
    rw [List.forall_mem_cons] at h
    rw [List.mapM_cons, List.mapM_cons, h.1, ih h.2]

end ProtoJava
