import Mathlib.Algebra.Ring.Parity
import Mathlib.Data.List.Induction
import ProtoJava.Java.Comment
import ProtoJava.Text.ByteEscape

/-! # Unicode escapes

Unicode escapes are decoded before anything else is read of a source text, its comments included. A
text without one is left as it is, and a disarmed text has none.
-/

namespace ProtoJava.Java

open Text

/-- The number of backslashes right at the end of a text. -/
def trailingBackslashes (cs : List Char) : Nat :=
  (cs.reverse.takeWhile (· = '\\')).length

/-- A text with a Unicode escape: a backslash and `u`, after an even number of backslashes. -/
def HasUnicodeEscape (cs : List Char) : Prop :=
  ∃ before after, cs = before ++ '\\' :: 'u' :: after ∧ Even (trailingBackslashes before)

section Escapes

variable {cs ds : List Char} {c : Char}

theorem odd_trailingBackslashes_nil : false = true ↔ Odd (trailingBackslashes []) := by
  simp [trailingBackslashes]

theorem trailingBackslashes_concat (cs : List Char) (c : Char) :
    trailingBackslashes (cs ++ [c]) = if c = '\\' then trailingBackslashes cs + 1 else 0 := by
  by_cases hc : c = '\\' <;> simp [trailingBackslashes, hc]

/-- Backslashes are counted from the last other character on. -/
theorem trailingBackslashes_append (h : cs.getLast? ≠ some '\\') (ds : List Char) :
    trailingBackslashes (cs ++ ds) = trailingBackslashes ds := by
  induction ds using List.reverseRecOn with
  | nil =>
    rw [List.append_nil]
    rcases List.eq_nil_or_concat cs with rfl | ⟨cs, c, rfl⟩
    · rfl
    · have hc : c ≠ '\\' := by simpa using h
      rw [List.concat_eq_append, trailingBackslashes_concat, if_neg hc]
      rfl
  | append_singleton ds d ih =>
    rw [← List.append_assoc, trailingBackslashes_concat, trailingBackslashes_concat, ih]

theorem not_hasUnicodeEscape_nil : ¬ HasUnicodeEscape [] := by
  rintro ⟨before, after, h, -⟩
  simp at h

/-- A further character makes an escape just if it is the `u` of one. -/
theorem hasUnicodeEscape_concat : HasUnicodeEscape (cs ++ [c]) ↔
    HasUnicodeEscape cs ∨ c = 'u' ∧ Odd (trailingBackslashes cs) := by
  constructor
  · rintro ⟨before, after, h, he⟩
    rcases List.eq_nil_or_concat after with rfl | ⟨after, d, rfl⟩
    · have hsplit : cs ++ [c] = (before ++ ['\\']) ++ ['u'] := by simpa using h
      obtain ⟨rfl, hc⟩ := List.append_inj' hsplit rfl
      refine Or.inr ⟨by simpa using hc, ?_⟩
      rw [trailingBackslashes_concat, if_pos rfl]
      exact he.add_one
    · have hsplit : cs ++ [c] = (before ++ '\\' :: 'u' :: after) ++ [d] := by simpa using h
      exact Or.inl ⟨before, after, (List.append_inj' hsplit rfl).1, he⟩
  · rintro (⟨before, after, rfl, he⟩ | ⟨rfl, hodd⟩)
    · exact ⟨before, after ++ [c], by simp, he⟩
    · rcases List.eq_nil_or_concat cs with rfl | ⟨before, d, rfl⟩
      · simp [trailingBackslashes] at hodd
      · rw [List.concat_eq_append, trailingBackslashes_concat] at hodd
        split at hodd
        · next hd =>
          subst hd
          refine ⟨before, [], by simp, ?_⟩
          exact Nat.not_odd_iff_even.mp fun ho => (Nat.not_odd_iff_even.mpr ho.add_one) hodd
        · simp at hodd

/-- An escape does not reach over a character that is no backslash. -/
theorem hasUnicodeEscape_append (h : cs.getLast? ≠ some '\\') :
    HasUnicodeEscape (cs ++ ds) ↔ HasUnicodeEscape cs ∨ HasUnicodeEscape ds := by
  induction ds using List.reverseRecOn with
  | nil => simp [not_hasUnicodeEscape_nil]
  | append_singleton ds d ih =>
    rw [← List.append_assoc, hasUnicodeEscape_concat, hasUnicodeEscape_concat, ih,
      trailingBackslashes_append h, or_assoc]

theorem hasUnicodeEscape_append_of_not_mem (h : 'u' ∉ ds) :
    HasUnicodeEscape (cs ++ ds) ↔ HasUnicodeEscape cs := by
  induction ds using List.reverseRecOn with
  | nil => rw [List.append_nil]
  | append_singleton ds d ih =>
    rw [List.mem_append, not_or, List.mem_singleton] at h
    rw [← List.append_assoc, hasUnicodeEscape_concat, ih h.1]
    simp [Ne.symm h.2]

end Escapes

section Decoding

/-- The character that a Unicode escape denotes, and how many characters it takes after its
backslash: `u`, once or more often, and four hexadecimal digits. Half a surrogate pair is none. -/
def unicodeEscape? (cs : List Char) : Option (Char × Nat) :=
  let us := cs.takeWhile (· = 'u')
  let ds := (cs.drop us.length).take 4
  let n := digitsValue 16 ds
  if ds.length = 4 ∧ ds.all isHexDigit ∧ n.isValidChar then some (Char.ofNat n, us.length + 4)
  else none

/-- A text with its Unicode escapes decoded, if they are all well-formed. A backslash with `u` right
after it starts one if an even number of backslashes is right before it; `odd` tells its parity. -/
def decodeFrom (odd : Bool) : List Char → Option (List Char)
  | [] => some []
  | c :: r =>
    if c ≠ '\\' then (decodeFrom false r).map (c :: ·)
    else if odd ∨ r.head? ≠ some 'u' then (decodeFrom (!odd) r).map (c :: ·)
    else
      match unicodeEscape? r with
      | some (d, n) => (decodeFrom false (r.drop n)).map (d :: ·)
      | none => none
  termination_by cs => cs.length
  decreasing_by all_goals (simp only [List.length_cons, List.length_drop]; omega)

/-- A source text with its Unicode escapes decoded. -/
def decodeUnicode (raw : List Char) : Option (List Char) :=
  decodeFrom false raw

variable {odd : Bool} {c e : Char}

theorem decodeFrom_nil (odd : Bool) : decodeFrom odd [] = some [] := by
  rw [decodeFrom]

theorem decodeFrom_char (hc : c ≠ '\\') (odd : Bool) (r : List Char) :
    decodeFrom odd (c :: r) = (decodeFrom false r).map (c :: ·) := by
  rw [decodeFrom, if_pos hc]

/-- A backslash takes the character after it along, if that is no `u`. -/
theorem decodeFrom_escape (he : e ≠ 'u') (r : List Char) :
    decodeFrom false ('\\' :: e :: r) = (decodeFrom false r).map (['\\', e] ++ ·) := by
  have hsecond : decodeFrom true (e :: r) = (decodeFrom false r).map (e :: ·) := by
    by_cases hc : e = '\\'
    · rw [decodeFrom, if_neg (not_not.mpr hc), if_pos (Or.inl rfl)]
      rfl
    · exact decodeFrom_char hc true r
  have hhead : (e :: r).head? ≠ some 'u' := by simpa using he
  rw [decodeFrom, if_neg (not_not.mpr rfl), if_pos (Or.inr hhead), Bool.not_false, hsecond,
    Option.map_map]
  rfl

theorem decodeFrom_unicode {r : List Char} {n : Nat} (h : unicodeEscape? ('u' :: r) = some (c, n)) :
    decodeFrom false ('\\' :: 'u' :: r) =
      (decodeFrom false (('u' :: r).drop n)).map (c :: ·) := by
  rw [decodeFrom, if_neg (not_not.mpr rfl), if_neg (by simp), h]

/-- Whatever comes before it, text in which no escape ends is decoded to itself. -/
theorem decodeFrom_eq_self {before cs : List Char}
    (ho : odd = true ↔ Odd (trailingBackslashes before)) (h : ¬ HasUnicodeEscape (before ++ cs)) :
    decodeFrom odd cs = some cs := by
  induction cs generalizing odd before with
  | nil => exact decodeFrom_nil odd
  | cons c cs ih =>
    rw [List.append_cons] at h
    by_cases hc : c = '\\'
    · subst hc
      have hnext : (!odd) = true ↔ Odd (trailingBackslashes (before ++ ['\\'])) := by
        rw [trailingBackslashes_concat, if_pos rfl, Nat.odd_add_one, ← ho]
        simp
      have hend : odd ∨ cs.head? ≠ some 'u' := by
        by_contra hu
        rw [not_or, not_not] at hu
        obtain ⟨heven, hu⟩ := hu
        obtain ⟨after, rfl⟩ := List.head?_eq_some_iff.mp hu
        rw [ho, Nat.not_odd_iff_even] at heven
        exact h ⟨before, after, by simp, heven⟩
      rw [decodeFrom, if_neg (not_not.mpr rfl), if_pos hend, ih hnext h]
      rfl
    · have hnext : false = true ↔ Odd (trailingBackslashes (before ++ [c])) := by
        simp [trailingBackslashes_concat, hc]
      rw [decodeFrom_char hc, ih hnext h]
      rfl

theorem decodeUnicode_eq_self {cs : List Char} (h : ¬ HasUnicodeEscape cs) :
    decodeUnicode cs = some cs :=
  decodeFrom_eq_self odd_trailingBackslashes_nil h

end Decoding

/-- What disarming writes for a character, from what stands before it. -/
def disarmedChar (before : List Char) (c : Char) : List Char :=
  if c = '\r' then [' ']
  else if c = 'u' ∧ Odd (trailingBackslashes before) then ['\\', 'u']
  else [c]

section Disarming

theorem disarmFrom_concat {odd : Bool} {before : List Char}
    (ho : odd = true ↔ Odd (trailingBackslashes before)) (l : List Char) (c : Char) :
    disarmFrom odd (l ++ [c]) = disarmFrom odd l ++ disarmedChar (before ++ l) c := by
  induction l generalizing odd before with
  | nil =>
    simp only [List.nil_append, List.append_nil, disarmFrom, disarmedChar, ho]
    split_ifs <;> simp_all
  | cons d l ih =>
    have hrun : d ≠ '\\' → (false = true ↔ Odd (trailingBackslashes (before ++ [d]))) := by
      intro hd
      simp [trailingBackslashes_concat, hd]
    rw [List.append_cons before]
    simp only [List.cons_append, disarmFrom]
    split_ifs with hslash hu hr
    · have hnext : (!odd) = true ↔ Odd (trailingBackslashes (before ++ [d])) := by
        rw [trailingBackslashes_concat, if_pos hslash, Nat.odd_add_one, ← ho]
        simp
      rw [ih hnext, List.cons_append]
    · rw [ih (hrun hslash), List.cons_append, List.cons_append]
    · rw [ih (hrun hslash), List.cons_append]
    · rw [ih (hrun hslash), List.cons_append]

/-- A character is disarmed by the run of backslashes right before it. -/
theorem disarm_concat (l : List Char) (c : Char) :
    disarm (l ++ [c]) = disarm l ++ disarmedChar l c :=
  disarmFrom_concat odd_trailingBackslashes_nil l c

/-- Disarming changes no run of backslashes at the end. -/
theorem trailingBackslashes_disarm (l : List Char) :
    trailingBackslashes (disarm l) = trailingBackslashes l := by
  induction l using List.reverseRecOn with
  | nil => rfl
  | append_singleton l c ih =>
    rw [disarm_concat, trailingBackslashes_concat]
    by_cases hr : c = '\r'
    · simp [disarmedChar, trailingBackslashes, hr]
    by_cases hu : c = 'u' ∧ Odd (trailingBackslashes l)
    · rw [disarmedChar, if_neg hr, if_pos hu]
      simp [trailingBackslashes, hu.1]
    · rw [disarmedChar, if_neg hr, if_neg hu, trailingBackslashes_concat, ih]

theorem not_hasUnicodeEscape_disarm (l : List Char) : ¬ HasUnicodeEscape (disarm l) := by
  induction l using List.reverseRecOn with
  | nil => exact not_hasUnicodeEscape_nil
  | append_singleton l c ih =>
    rw [disarm_concat, disarmedChar]
    split_ifs with hr hu
    · simp [hasUnicodeEscape_concat, ih]
    · -- The run before `u` was odd; with one more backslash it is even.
      have heven : ¬ Odd (trailingBackslashes (disarm l ++ ['\\'])) := by
        rw [trailingBackslashes_concat, if_pos rfl, trailingBackslashes_disarm, Nat.odd_add_one,
          not_not]
        exact hu.2
      rw [List.append_cons, hasUnicodeEscape_concat, hasUnicodeEscape_concat]
      simp [ih, heven]
    · rw [hasUnicodeEscape_concat, trailingBackslashes_disarm]
      exact not_or.mpr ⟨ih, hu⟩

/-- Disarming adds nothing but spaces and backslashes, and leaves no carriage return. -/
theorem mem_disarm {l : List Char} {c : Char} (h : c ∈ disarm l) :
    c = ' ' ∨ c = '\\' ∨ c ∈ l ∧ c ≠ '\r' := by
  induction l using List.reverseRecOn with
  | nil => exact absurd h List.not_mem_nil
  | append_singleton l d ih =>
    rw [disarm_concat, List.mem_append] at h
    rcases h with h | h
    · have := ih h
      grind
    · unfold disarmedChar at h
      grind

theorem carriageReturn_not_mem_disarm (l : List Char) : '\r' ∉ disarm l := by
  intro h
  simpa using mem_disarm h

theorem newline_not_mem_disarm {l : List Char} (h : '\n' ∉ l) : '\n' ∉ disarm l := by
  intro hm
  simpa [h] using mem_disarm hm

/-- A text without carriage returns and escapes is left as it is. -/
theorem disarm_eq_self {l : List Char} (hr : '\r' ∉ l) (he : ¬ HasUnicodeEscape l) :
    disarm l = l := by
  induction l using List.reverseRecOn with
  | nil => rfl
  | append_singleton l c ih =>
    rw [List.mem_append, not_or, List.mem_singleton] at hr
    rw [hasUnicodeEscape_concat, not_or] at he
    rw [disarm_concat, ih hr.1 he.1, disarmedChar, if_neg (Ne.symm hr.2), if_neg he.2]

theorem disarm_disarm (l : List Char) : disarm (disarm l) = disarm l :=
  disarm_eq_self (carriageReturn_not_mem_disarm l) (not_hasUnicodeEscape_disarm l)

end Disarming

end ProtoJava.Java
