import Mathlib.Data.List.Chain
import ProtoJava.Proofs.Naming.Spelling

/-! # Camel case

Pascal case changes nothing just where no small letter stands at the start of a word, and its
results are such texts. So doing it again, before camel case or after it, makes no difference.
-/

namespace ProtoJava.Naming

/-- A digit or an underscore. A letter after it starts a word. -/
def EndsWord (c : Char) : Prop :=
  c.isDigit ∨ c = '_'

/-- Neither an underscore nor a small letter comes first, and no small letter comes right after
what ends a word. -/
structure IsPascal (cs : List Char) : Prop where
  first : ∀ c ∈ cs.head?, c ≠ '_' ∧ ¬ c.isLower
  next : cs.IsChain fun before c => EndsWord before → ¬ c.isLower

/-- A letter, followed by letters, digits and underscores. -/
def isLetterName : List Char → Bool
  | [] => false
  | c :: r => c.isAlpha && r.all isWord

section Scan

variable {c : Char} {cs : List Char}

theorem not_endsWord_of_isAlpha (h : c.isAlpha) : ¬ EndsWord c := by
  have := of_isWord (p := fun c => !c.isAlpha || !(c.isDigit || c = '_')) (by decide)
    (isWord_of_isAlpha h)
  simpa [EndsWord, h] using this

theorem ne_underscore_of_isAlpha (h : c.isAlpha) : c ≠ '_' :=
  fun he => not_endsWord_of_isAlpha h (Or.inr he)

/-- A small letter is raised unless a word goes on with it. -/
theorem camelFrom_lower (h : c.isLower) (inWord : Bool) (cs : List Char) :
    camelFrom inWord (c :: cs) = (if inWord then c else c.toUpper) :: camelFrom true cs := by
  obtain ⟨hd, hu⟩ := not_or.mp (not_endsWord_of_isAlpha (isAlpha_of_isLower h))
  cases inWord <;> simp [camelFrom, h, hd, hu]

theorem camelFrom_dropped (h : startsLower cs) (inWord : Bool) :
    camelFrom inWord ('_' :: cs) = camelFrom false cs := by
  have : '_'.isLower = false := by decide
  simp [camelFrom, h, this]

/-- Other characters stay as they are, and a digit among them ends a word. -/
theorem camelFrom_kept (hl : ¬ c.isLower) (h : c = '_' → ¬ startsLower cs) (inWord : Bool) :
    camelFrom inWord (c :: cs) = c :: camelFrom (!c.isDigit) cs := by
  have hdrop : ¬ (c = '_' ∧ startsLower cs) := not_and.mpr h
  by_cases hd : c.isDigit <;> simp [camelFrom, hl, hdrop, hd, toUpper_of_not_isLower hl]

/-- The first character of what is left is small only if a word goes on with it. -/
theorem isLower_head?_camelFrom (inWord : Bool) :
    ∀ d ∈ (camelFrom inWord cs).head?, d.isLower → inWord ∧ startsLower cs := by
  induction cs generalizing inWord with
  | nil => simp [camelFrom]
  | cons c cs ih =>
    by_cases hl : c.isLower
    · rw [camelFrom_lower hl]
      intro d hd hlower
      obtain rfl := Option.some.inj hd
      cases inWord with
      | true => exact ⟨rfl, hl⟩
      | false => exact absurd hlower (not_isLower_toUpper c)
    · by_cases hdrop : c = '_' ∧ startsLower cs
      · obtain ⟨rfl, hs⟩ := hdrop
        rw [camelFrom_dropped hs]
        exact fun d hd hlower => absurd (ih false d hd hlower).1 Bool.false_ne_true
      · rw [camelFrom_kept hl (not_and.mp hdrop)]
        simp [hl]

/-- The scan leaves no small letter where a word starts. -/
theorem isChain_camelFrom (inWord : Bool) :
    (camelFrom inWord cs).IsChain fun before c => EndsWord before → ¬ c.isLower := by
  induction cs generalizing inWord with
  | nil => exact .nil
  | cons c cs ih =>
    by_cases hl : c.isLower
    · have halpha : (if inWord then c else c.toUpper).isAlpha := by
        split
        · exact isAlpha_of_isLower hl
        · exact isAlpha_toUpper (isAlpha_of_isLower hl)
      rw [camelFrom_lower hl]
      exact .cons (ih true) fun _ _ hend => absurd hend (not_endsWord_of_isAlpha halpha)
    · by_cases hdrop : c = '_' ∧ startsLower cs
      · obtain ⟨rfl, hs⟩ := hdrop
        rw [camelFrom_dropped hs]
        exact ih false
      · rw [camelFrom_kept hl (not_and.mp hdrop)]
        -- A digit leaves no word to go on with, and an underscore before a small letter goes.
        refine .cons (ih _) fun d hd hend hlower => ?_
        obtain ⟨hword, hs⟩ := isLower_head?_camelFrom _ d hd hlower
        rcases hend with hdigit | rfl
        · simp [hdigit] at hword
        · exact hdrop ⟨rfl, hs⟩

theorem camelFrom_eq_self {inWord : Bool} (hf : ∀ c ∈ cs.head?, c.isLower → inWord)
    (hn : cs.IsChain fun before c => EndsWord before → ¬ c.isLower) :
    camelFrom inWord cs = cs := by
  induction cs generalizing inWord with
  | nil => rfl
  | cons c cs ih =>
    obtain ⟨hnext, hrest⟩ := List.isChain_cons.mp hn
    by_cases hl : c.isLower
    · rw [camelFrom_lower hl, if_pos (hf c rfl hl), ih (fun _ _ _ => rfl) hrest]
    · have hkeep : c = '_' → ¬ startsLower cs := by
        rintro rfl
        cases cs with
        | nil => exact Bool.false_ne_true
        | cons d cs => exact hnext d rfl (Or.inr rfl)
      rw [camelFrom_kept hl hkeep, ih ?_ hrest]
      intro d hd hlower
      by_contra hdigit
      exact hnext d hd (Or.inl (by simpa using hdigit)) hlower

end Scan

section Pascal

variable {c : Char} {cs : List Char}

theorem isPascal_camelChars (cs : List Char) : IsPascal (camelChars cs) := by
  cases cs with
  | nil => exact ⟨nofun, .nil⟩
  | cons c cs =>
    by_cases hc : c = '_'
    · subst hc
      refine ⟨by simp [camelChars], .cons (isChain_camelFrom false) fun _ _ hend => ?_⟩
      exact absurd hend (not_endsWord_of_isAlpha rfl)
    · rw [camelChars_of_ne hc]
      refine ⟨?_, isChain_camelFrom false⟩
      by_cases hl : c.isLower
      · have halpha := isAlpha_toUpper (isAlpha_of_isLower hl)
        rw [camelFrom_lower hl]
        intro d hd
        obtain rfl := Option.some.inj hd
        exact ⟨ne_underscore_of_isAlpha halpha, not_isLower_toUpper c⟩
      · rw [camelFrom_kept hl (absurd · hc)]
        simp [hc, hl]

theorem camelChars_eq_self (h : IsPascal cs) : camelChars cs = cs := by
  cases cs with
  | nil => rfl
  | cons c cs =>
    obtain ⟨hc, -⟩ := h.first c rfl
    rw [camelChars_of_ne hc]
    exact camelFrom_eq_self (fun d hd hlower => absurd hlower (h.first d hd).2) h.next

theorem camelChars_eq_self_iff : camelChars cs = cs ↔ IsPascal cs :=
  ⟨fun h => h ▸ isPascal_camelChars cs, camelChars_eq_self⟩

theorem camelChars_camelChars (cs : List Char) : camelChars (camelChars cs) = camelChars cs :=
  camelChars_eq_self (isPascal_camelChars cs)

theorem lowerCamelChars_eq (cs : List Char) :
    lowerCamelChars cs = (camelChars cs).modifyHead Char.toLower := by
  unfold lowerCamelChars
  cases camelChars cs <;> rfl

/-- Pascal case raises the first letter again. -/
theorem camelChars_modifyHead (h : IsPascal cs) : camelChars (cs.modifyHead Char.toLower) = cs := by
  cases cs with
  | nil => rfl
  | cons c cs =>
    obtain ⟨-, hnext⟩ := List.isChain_cons.mp h.next
    by_cases hu : c.isUpper
    · obtain ⟨hlower, hback, -⟩ := toLower_of_isUpper hu
      have hne := ne_underscore_of_isAlpha (isAlpha_of_isLower hlower)
      rw [List.modifyHead_cons, camelChars_of_ne hne, camelFrom_lower hlower,
        if_neg Bool.false_ne_true, hback, camelFrom_eq_self (fun _ _ _ => rfl) hnext]
    · rw [List.modifyHead_cons, toLower_of_not_isUpper hu, camelChars_eq_self h]

theorem camelChars_lowerCamelChars (cs : List Char) :
    camelChars (lowerCamelChars cs) = camelChars cs := by
  rw [lowerCamelChars_eq, camelChars_modifyHead (isPascal_camelChars cs)]

theorem lowerCamelChars_camelChars (cs : List Char) :
    lowerCamelChars (camelChars cs) = lowerCamelChars cs := by
  rw [lowerCamelChars_eq, camelChars_camelChars, lowerCamelChars_eq]

theorem lowerCamelChars_lowerCamelChars (cs : List Char) :
    lowerCamelChars (lowerCamelChars cs) = lowerCamelChars cs := by
  rw [lowerCamelChars_eq, camelChars_lowerCamelChars, lowerCamelChars_eq]

theorem isLetterName_cons (hc : c.isAlpha) (h : ∀ d ∈ cs, isWord d) : isLetterName (c :: cs) := by
  simp only [isLetterName, Bool.and_eq_true, List.all_eq_true]
  exact ⟨hc, h⟩

theorem isLetterName_camelChars (h : isName cs) :
    isLetterName (camelChars cs) ∧ isLetterName (lowerCamelChars cs) := by
  obtain ⟨c, ds, he, hc, hds⟩ := exists_camelChars h
  rw [lowerCamelChars_eq, he]
  exact ⟨isLetterName_cons hc hds, isLetterName_cons (isAlpha_toLower hc) hds⟩

/-- Pascal case leaves a text alone just if no word of it starts with a small letter, and gives
such texts only. So doing it twice is doing it once, and of Pascal case and camel case the later
one decides. Both make names of names, and those start with a letter. -/
theorem camel_projection (s : String) :
    (camel s = s ↔ IsPascal s.toList) ∧ IsPascal (camel s).toList ∧
    camel (camel s) = camel s ∧ (camel s).toList.head? ≠ some '_' ∧
    camel (lowerCamel s) = camel s ∧ lowerCamel (camel s) = lowerCamel s ∧
    lowerCamel (lowerCamel s) = lowerCamel s ∧
    (isName s.toList → isLetterName (camel s).toList ∧ isLetterName (lowerCamel s).toList) := by
  have hpascal := isPascal_camelChars s.toList
  simp only [camel, lowerCamel, String.toList_ofList, camelChars_camelChars,
    camelChars_lowerCamelChars, lowerCamelChars_camelChars, lowerCamelChars_lowerCamelChars,
    true_and]
  refine ⟨?_, hpascal, fun h => (hpascal.first _ h).1 rfl, isLetterName_camelChars⟩
  rw [← camelChars_eq_self_iff, ← String.ofList_inj, String.ofList_toList]

/-- Of three underscores, one is raised, one goes, and one stays in front of a digit. -/
theorem camel_projection_underscores :
    isName "_my_field_2fa".toList ∧ camel "_my_field_2fa" = "XMyField_2Fa" ∧
    IsPascal (camel "_my_field_2fa").toList ∧ isLetterName (camel "_my_field_2fa").toList ∧
    lowerCamel "_my_field_2fa" = "xMyField_2Fa" ∧
    isLetterName (lowerCamel "_my_field_2fa").toList := by
  have hname : isName "_my_field_2fa".toList := by decide
  obtain ⟨-, hpascal, -, -, -, -, -, hletter⟩ := camel_projection "_my_field_2fa"
  obtain ⟨hcamel, hlower⟩ := hletter hname
  exact ⟨hname, by decide, hpascal, hcamel, by decide, hlower⟩

end Pascal

end ProtoJava.Naming
