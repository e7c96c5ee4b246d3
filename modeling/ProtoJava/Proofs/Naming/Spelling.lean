import Mathlib.Data.List.Basic
import Mathlib.Tactic.SplitIfs
import ProtoJava.Java.Verify
import ProtoJava.Naming.Casing
import ProtoJava.Text.Case

/-! # Spellings of names

The spellings of a name of a schema are identifiers, whatever words are put around them.
-/

namespace ProtoJava.Naming

open Java (isIdentifierStart isIdentifier)

/-- Characters of a text are tried one by one. Instances for all characters there are stay out of
the way. -/
instance decidableForallMem (p : Char → Bool) (cs : List Char) : Decidable (∀ c ∈ cs, p c) :=
  List.decidableBAll _ cs

/-- A letter, a digit or an underscore. -/
def isWord (c : Char) : Bool :=
  c.isAlphanum || c = '_'

/-- A letter or an underscore. -/
def isNameStart (c : Char) : Bool :=
  c.isAlpha || c = '_'

/-- A letter or an underscore, followed by letters, digits and underscores. -/
def isName : List Char → Bool
  | [] => false
  | c :: r => isNameStart c && r.all isWord

theorem isName_iff {cs : List Char} :
    isName cs ↔ (∃ c ∈ cs.head?, isNameStart c) ∧ ∀ c ∈ cs, isWord c := by
  cases cs with
  | nil => simp [isName]
  | cons c cs =>
    simp only [isName, Bool.and_eq_true, List.all_eq_true, List.head?_cons, Option.mem_def,
      Option.some.injEq, exists_eq_left', List.forall_mem_cons]
    constructor
    · rintro ⟨h, hr⟩
      refine ⟨h, ?_, hr⟩
      simp only [isNameStart, isWord, Char.isAlphanum, Bool.or_eq_true] at h ⊢
      exact h.imp_left Or.inl
    · rintro ⟨h, -, hr⟩
      exact ⟨h, hr⟩

theorem isIdentifier_of_isName {cs : List Char} (h : isName cs) : isIdentifier cs := by
  cases cs with
  | nil => exact h
  | cons c cs =>
    simp only [isName, isNameStart, isWord, Char.isAlphanum, isIdentifier, isIdentifierStart,
      Bool.and_eq_true, List.all_eq_true, Bool.or_eq_true] at h ⊢
    refine ⟨Or.inl h.1, fun d hd => ?_⟩
    rcases h.2 d hd with (h | h) | h
    · exact Or.inl (Or.inl (Or.inl h))
    · exact Or.inr h
    · exact Or.inl (Or.inl (Or.inr h))

/-- A name with words after it is a name. -/
theorem isName_append {cs ds : List Char} (h : isName cs) (hd : ∀ d ∈ ds, isWord d) :
    isName (cs ++ ds) := by
  cases cs with
  | nil => exact absurd h (by decide)
  | cons c cs =>
    simp only [isName, List.cons_append, Bool.and_eq_true, List.all_eq_true] at h ⊢
    exact ⟨h.1, List.forall_mem_append.mpr ⟨h.2, hd⟩⟩

section Casing

variable {cs : List Char} {c : Char}

theorem toNat_lt_of_isWord (h : isWord c) : c.toNat < 128 := by
  delta isWord Char.isAlphanum Char.isAlpha Char.isUpper Char.isLower Char.isDigit at h
  simp only [Bool.or_eq_true, Bool.and_eq_true, decide_eq_true_eq, ge_iff_le,
    UInt32.le_iff_toNat_le] at h
  rcases h with ((h | h) | h) | rfl
  · exact Nat.lt_of_le_of_lt h.2 (by decide)
  · exact Nat.lt_of_le_of_lt h.2 (by decide)
  · exact Nat.lt_of_le_of_lt h.2 (by decide)
  · decide

/-- What holds of every word character is seen by going through them. -/
theorem of_isWord {p : Char → Bool} (h : ∀ n < 128, isWord (Char.ofNat n) → p (Char.ofNat n))
    (hc : isWord c) : p c := by
  have := h c.toNat (toNat_lt_of_isWord hc)
  rw [Char.ofNat_toNat] at this
  exact this hc

theorem isWord_of_isNameStart (h : isNameStart c) : isWord c := by
  simp only [isNameStart, isWord, Char.isAlphanum, Bool.or_eq_true] at h ⊢
  exact h.imp_left Or.inl

theorem isWord_of_isAlpha (h : c.isAlpha) : isWord c := by
  simp [isWord, Char.isAlphanum, h]

theorem isAlpha_of_isLower (h : c.isLower) : c.isAlpha :=
  (Bool.or_eq_true c.isUpper c.isLower).mpr (Or.inr h)

theorem isAlpha_of_isUpper (h : c.isUpper) : c.isAlpha :=
  (Bool.or_eq_true c.isUpper c.isLower).mpr (Or.inl h)

theorem isWord_of_isLower (h : c.isLower) : isWord c :=
  isWord_of_isAlpha (isAlpha_of_isLower h)

theorem isWord_of_isUpper (h : c.isUpper) : isWord c :=
  isWord_of_isAlpha (isAlpha_of_isUpper h)

theorem not_isLower_of_isUpper (h : c.isUpper) : ¬ c.isLower := by
  have := of_isWord (p := fun c => !c.isUpper || !c.isLower) (by decide) (isWord_of_isUpper h)
  simpa [h] using this

theorem not_isUpper_of_isLower (h : c.isLower) : ¬ c.isUpper :=
  fun hu => not_isLower_of_isUpper hu h

theorem toUpper_of_isLower (h : c.isLower) : c.toUpper.isUpper ∧ c.toUpper.toLower = c := by
  have := of_isWord (p := fun c => !c.isLower || (c.toUpper.isUpper && c.toUpper.toLower = c))
    (by decide) (isWord_of_isLower h)
  simpa [h] using this

theorem toUpper_of_not_isLower (h : ¬ c.isLower) : c.toUpper = c := by
  delta Char.isLower at h
  rw [Bool.and_eq_true, decide_eq_true_eq, decide_eq_true_eq] at h
  exact dif_neg h

theorem toLower_of_isUpper (h : c.isUpper) :
    c.toLower.isLower ∧ c.toLower.toUpper = c ∧ c.toLower ≠ c := by
  have := of_isWord (p := fun c => !c.isUpper || (c.toLower.isLower && c.toLower.toUpper = c &&
    c.toLower ≠ c)) (by decide) (isWord_of_isUpper h)
  simpa [h, and_assoc] using this

theorem toLower_of_not_isUpper (h : ¬ c.isUpper) : c.toLower = c := by
  delta Char.isUpper at h
  rw [decide_eq_true_eq] at h
  exact dif_neg h

theorem not_isLower_toUpper (c : Char) : ¬ c.toUpper.isLower := by
  by_cases h : c.isLower
  · exact not_isLower_of_isUpper (toUpper_of_isLower h).1
  · rwa [toUpper_of_not_isLower h]

theorem isAlpha_toUpper (h : c.isAlpha) : c.toUpper.isAlpha := by
  by_cases hl : c.isLower
  · exact isAlpha_of_isUpper (toUpper_of_isLower hl).1
  · rwa [toUpper_of_not_isLower hl]

theorem isAlpha_toLower (h : c.isAlpha) : c.toLower.isAlpha := by
  by_cases hu : c.isUpper
  · exact isAlpha_of_isLower (toLower_of_isUpper hu).1
  · rwa [toLower_of_not_isUpper hu]

theorem isWord_toUpper (h : isWord c) : isWord c.toUpper := by
  by_cases hl : c.isLower
  · exact isWord_of_isUpper (toUpper_of_isLower hl).1
  · rwa [toUpper_of_not_isLower hl]

theorem isWord_camelFrom (h : ∀ c ∈ cs, isWord c) (inWord : Bool) :
    ∀ c ∈ camelFrom inWord cs, isWord c := by
  induction cs generalizing inWord with
  | nil => simp [camelFrom]
  | cons c cs ih =>
    rw [List.forall_mem_cons] at h
    unfold camelFrom
    split_ifs
    · exact List.forall_mem_cons.mpr ⟨h.1, ih h.2 _⟩
    · exact ih h.2 _
    · exact List.forall_mem_cons.mpr ⟨h.1, ih h.2 _⟩
    · exact List.forall_mem_cons.mpr ⟨isWord_toUpper h.1, ih h.2 _⟩

theorem camelChars_of_ne (hc : c ≠ '_') (cs : List Char) :
    camelChars (c :: cs) = camelFrom false (c :: cs) := by
  rw [camelChars]
  rintro r ⟨rfl, rfl⟩
  exact hc rfl

/-- Pascal case of a name starts with a letter. -/
theorem exists_camelChars (h : isName cs) :
    ∃ d ds, camelChars cs = d :: ds ∧ d.isAlpha ∧ ∀ x ∈ ds, isWord x := by
  cases cs with
  | nil => exact absurd h (by decide)
  | cons c cs =>
    simp only [isName, Bool.and_eq_true, List.all_eq_true] at h
    by_cases hc : c = '_'
    · subst hc
      exact ⟨'X', camelFrom false cs, rfl, by decide, isWord_camelFrom h.2 _⟩
    · have halpha : c.isAlpha := by simpa [isNameStart, hc] using h.1
      have hdigit : c.isDigit = false := by
        have := of_isWord (p := fun c => !c.isAlpha || !c.isDigit) (by decide)
          (isWord_of_isNameStart h.1)
        simpa [halpha] using this
      refine ⟨c.toUpper, camelFrom true cs, ?_, isAlpha_toUpper halpha, isWord_camelFrom h.2 _⟩
      rw [camelChars_of_ne hc]
      simp [camelFrom, hc, hdigit]

theorem isName_cons {d : Char} {ds : List Char} (hd : d.isAlpha) (h : ∀ x ∈ ds, isWord x) :
    isName (d :: ds) := by
  simp only [isName, isNameStart, Bool.and_eq_true, Bool.or_eq_true, List.all_eq_true]
  exact ⟨Or.inl hd, h⟩

theorem isWord_camel {s : String} (h : ∀ c ∈ s.toList, isWord c) :
    ∀ c ∈ (camel s).toList, isWord c := by
  rw [camel, String.toList_ofList]
  unfold camelChars
  split
  · next hs =>
    rw [hs, List.forall_mem_cons] at h
    exact List.forall_mem_cons.mpr ⟨by decide, isWord_camelFrom h.2 _⟩
  · exact isWord_camelFrom h _

theorem isName_camel {s : String} (h : isName s.toList) : isName (camel s).toList := by
  obtain ⟨d, ds, he, hd, hds⟩ := exists_camelChars h
  rw [camel, String.toList_ofList, he]
  exact isName_cons hd hds

theorem isName_lowerCamel {s : String} (h : isName s.toList) : isName (lowerCamel s).toList := by
  obtain ⟨d, ds, he, hd, hds⟩ := exists_camelChars h
  rw [lowerCamel, String.toList_ofList, lowerCamelChars, he]
  exact isName_cons (isAlpha_toLower hd) hds

theorem isWord_snakeFrom (h : ∀ c ∈ cs, isWord c) (before : Option Char) :
    ∀ c ∈ snakeFrom before cs, isWord c := by
  induction cs generalizing before with
  | nil => simp [snakeFrom]
  | cons c cs ih =>
    rw [List.forall_mem_cons] at h
    rw [snakeFrom, List.forall_mem_append]
    refine ⟨?_, ih h.2 _⟩
    split_ifs
    · simpa using ⟨by decide, h.1⟩
    · simpa using isWord_toUpper h.1

theorem isName_upperSnake {s : String} (h : isName s.toList) : isName (upperSnake s).toList := by
  rw [upperSnake, String.toList_ofList, upperSnakeChars]
  split_ifs
  · cases hs : s.toList with
    | nil => simp [hs, isName] at h
    | cons c cs =>
      rw [hs] at h
      simp only [isName, Bool.and_eq_true, List.all_eq_true] at h
      have hstart : isNameStart c.toUpper := by
        by_cases hl : c.isLower
        · simp [isNameStart, isAlpha_toUpper (isAlpha_of_isLower hl)]
        · rw [toUpper_of_not_isLower hl]
          exact h.1
      simp only [snakeFrom, Option.any_none, Bool.and_false, Bool.false_eq_true, if_false,
        List.cons_append, List.nil_append, isName, Bool.and_eq_true, List.all_eq_true]
      exact ⟨hstart, isWord_snakeFrom h.2 _⟩
  · exact h

/-- The stem of an accessor is of letters and digits, whatever it is made of. -/
theorem isAlphanum_stemFrom (capital : Bool) : ∀ c ∈ stemFrom capital cs, c.isAlphanum := by
  have halpha : ∀ {c : Char}, c.isAlpha → c.isAlphanum := fun h => by simp [Char.isAlphanum, h]
  induction cs generalizing capital with
  | nil => simp [stemFrom]
  | cons c cs ih =>
    unfold stemFrom
    split_ifs with hl hc hu hd
    · exact List.forall_mem_cons.mpr ⟨halpha (isAlpha_toUpper (isAlpha_of_isLower hl)), ih _⟩
    · exact List.forall_mem_cons.mpr ⟨halpha (isAlpha_of_isLower hl), ih _⟩
    · exact List.forall_mem_cons.mpr ⟨halpha (isAlpha_of_isUpper hu), ih _⟩
    · exact List.forall_mem_cons.mpr ⟨by simp [Char.isAlphanum, hd], ih _⟩
    · exact ih _

theorem isWord_stemFrom (capital : Bool) : ∀ c ∈ stemFrom capital cs, isWord c := by
  intro c hc
  simp [isWord, isAlphanum_stemFrom capital c hc]

theorem isWord_accessorStem (s : String) : ∀ c ∈ (accessorStem s).toList, isWord c := by
  rw [accessorStem, String.toList_ofList, accessorStemChars]
  split_ifs
  · exact List.forall_mem_append.mpr ⟨isWord_stemFrom _, by decide⟩
  · exact isWord_stemFrom _

theorem isWord_toUpper_text {s : String} (h : isName s.toList) :
    ∀ c ∈ (Text.toUpper s).toList, isWord c := by
  rw [Text.toUpper, String.toList_ofList, Text.upper]
  intro d hd
  obtain ⟨c, hc, hd⟩ := List.mem_flatMap.mp hd
  have := of_isWord (p := fun c => (Text.upperChar c).all isWord) (by decide +kernel)
    ((isName_iff.mp h).2 c hc)
  exact List.all_eq_true.mp this d hd

end Casing

end ProtoJava.Naming
