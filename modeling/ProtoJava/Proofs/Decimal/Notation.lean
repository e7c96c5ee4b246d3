import ProtoJava.Decimal.Layout
import ProtoJava.Proofs.Text.Decimals

/-! # Decimal notation

Finite numbers are written with a digit on both sides of a point, or with an exponent, after a minus
sign if they are negative. The words for what is no finite number are not of that form.
-/

namespace ProtoJava.Decimal

/-- One or more decimal digits. -/
structure Digits (cs : List Char) : Prop where
  ne_nil : cs ≠ []
  isDigit : ∀ c ∈ cs, c.isDigit

/-- A point and digits, or nothing. -/
inductive IsFraction : List Char → Prop
  | none : IsFraction []
  | point {ds : List Char} : Digits ds → IsFraction ('.' :: ds)

/-- An exponent, or nothing. -/
inductive IsExponent : List Char → Prop
  | none : IsExponent []
  | unsigned {ds : List Char} : Digits ds → IsExponent ('e' :: ds)
  | signed {sign : Char} {ds : List Char} : sign = '-' ∨ sign = '+' → Digits ds →
      IsExponent ('e' :: sign :: ds)

inductive IsUnsigned : List Char → Prop
  | parts {whole fraction exponent : List Char} : Digits whole → IsFraction fraction →
      IsExponent exponent → IsUnsigned (whole ++ fraction ++ exponent)

/-- A decimal number: digits after an optional minus sign, and optionally a fraction and an
exponent. -/
inductive IsDecimal : List Char → Prop
  | positive {cs : List Char} : IsUnsigned cs → IsDecimal cs
  | negative {cs : List Char} : IsUnsigned cs → IsDecimal ('-' :: cs)

variable {cs ds : List Char}

theorem Digits.append (h : Digits cs) (hd : ∀ c ∈ ds, c.isDigit) : Digits (cs ++ ds) where
  ne_nil := List.append_ne_nil_of_left_ne_nil h.ne_nil ds
  isDigit := List.forall_mem_append.mpr ⟨h.isDigit, hd⟩

theorem isDigit_zeros (n : Nat) : ∀ c ∈ zeros n, c.isDigit := by
  intro c hc
  rw [List.eq_of_mem_replicate hc]
  decide

theorem digits_zero : Digits ['0'] where
  ne_nil := List.cons_ne_nil _ _
  isDigit := List.forall_mem_singleton.mpr rfl

theorem digits_toDigits (n : Nat) : Digits (Nat.toDigits 10 n) where
  ne_nil := Nat.toDigits_ne_nil
  isDigit _ := Text.isDigit_of_mem_toDigits

/-- A whole number and a fraction. -/
theorem isUnsigned_point (h : Digits cs) (hd : Digits ds) : IsUnsigned (cs ++ '.' :: ds) := by
  have hparts := IsUnsigned.parts h (.point hd) .none
  rwa [List.append_nil] at hparts

theorem isUnsigned_positional (h : Digits ds) (point : Int) :
    IsUnsigned (positional ds point) := by
  unfold positional
  split_ifs with hsmall hlarge
  · have hfraction : Digits (zeros (-point).toNat ++ ds) := by
      constructor
      case ne_nil => exact List.append_ne_nil_of_right_ne_nil _ h.ne_nil
      case isDigit => exact List.forall_mem_append.mpr ⟨isDigit_zeros _, h.isDigit⟩
    exact isUnsigned_point digits_zero hfraction
  · exact isUnsigned_point (h.append (isDigit_zeros _)) digits_zero
  · have hwhole : Digits (ds.take point.toNat) := by
      constructor
      case ne_nil =>
        rw [Ne, List.take_eq_nil_iff, not_or]
        exact ⟨by omega, h.ne_nil⟩
      case isDigit => exact fun c hc => h.isDigit c (List.mem_of_mem_take hc)
    have hfraction : Digits (ds.drop point.toNat) := by
      constructor
      case ne_nil =>
        rw [Ne, List.drop_eq_nil_iff]
        omega
      case isDigit => exact fun c hc => h.isDigit c (List.mem_of_mem_drop hc)
    exact isUnsigned_point hwhole hfraction

theorem isExponent_int (i : Int) : IsExponent ('e' :: (toString i).toList) := by
  rw [Text.toList_int]
  split
  · exact .unsigned (digits_toDigits _)
  · exact .signed (Or.inl rfl) (digits_toDigits _)

theorem isUnsigned_scientific (h : Digits ds) (exponent : Int) :
    IsUnsigned (scientific ds exponent) := by
  unfold scientific
  split
  · next d e r =>
    have hwhole : Digits [d] := ⟨List.cons_ne_nil _ _, by simpa using h.isDigit d (by simp)⟩
    have hfraction : Digits (e :: r) :=
      ⟨List.cons_ne_nil _ _, fun c hc => h.isDigit c (List.mem_cons_of_mem d hc)⟩
    exact .parts hwhole (.point hfraction) (isExponent_int exponent)
  · have hparts := IsUnsigned.parts h .none (isExponent_int exponent)
    rwa [List.append_nil] at hparts

/-- A magnitude that is not too large is written with digits. -/
theorem isUnsigned_magnitude (l : Layout) (fmt : Format) {m : Magnitude} (h : m ≠ .infinite) :
    IsUnsigned (l.magnitude fmt m) := by
  unfold Layout.magnitude
  split
  · exact absurd rfl h
  · exact isUnsigned_point digits_zero digits_zero
  · unfold Layout.decimal
    dsimp only
    split
    · exact isUnsigned_positional (digits_toDigits _) _
    · exact isUnsigned_scientific (digits_toDigits _) _

theorem isDecimal_signed (negative : Bool) (h : IsUnsigned cs) :
    IsDecimal (signed negative cs) := by
  cases negative
  · exact .positive h
  · exact .negative h

theorem IsUnsigned.exists_digit (h : IsUnsigned cs) : ∃ c ∈ cs, c.isDigit := by
  cases h with
  | @parts whole _ _ hwhole _ _ =>
    obtain ⟨d, whole, rfl⟩ := List.exists_cons_of_ne_nil hwhole.ne_nil
    exact ⟨d, by simp, hwhole.isDigit d List.mem_cons_self⟩

/-- There is a digit in every decimal number. -/
theorem IsDecimal.exists_digit (h : IsDecimal cs) : ∃ c ∈ cs, c.isDigit := by
  cases h with
  | positive h => exact h.exists_digit
  | negative h =>
    obtain ⟨c, hc, hd⟩ := h.exists_digit
    exact ⟨c, List.mem_cons_of_mem _ hc, hd⟩

end ProtoJava.Decimal
