import ProtoJava.Mapping.Literal
import ProtoJava.Proofs.Java.Classes
import ProtoJava.Proofs.Schema.Spelled

/-! # Literals of defaults

The literal for a default leaves open brackets as they are: a text is quoted, bytes are numbers in
braces of their own, and all others are words and numbers.
-/

namespace ProtoJava.Decimal

open Schema (isNumeralPart)

/-- A character of a numeral is a digit, a letter, a point or a sign. -/
def Numeric (cs : List Char) : Prop :=
  ∀ c ∈ cs, isNumeralPart c

instance (cs : List Char) : Decidable (Numeric cs) :=
  inferInstanceAs (Decidable (∀ c ∈ cs, isNumeralPart c))

variable {cs ds : List Char}

theorem Numeric.append (h : Numeric cs) (h' : Numeric ds) : Numeric (cs ++ ds) :=
  List.forall_mem_append.mpr ⟨h, h'⟩

theorem Numeric.cons {c : Char} (hc : isNumeralPart c) (h : Numeric cs) : Numeric (c :: cs) :=
  List.forall_mem_cons.mpr ⟨hc, h⟩

theorem isNumeralPart_of_isDigit {c : Char} (h : c.isDigit) : isNumeralPart c := by
  simp [isNumeralPart, Char.isAlphanum, h]

theorem numeric_toDigits (n : Nat) : Numeric (Nat.toDigits 10 n) :=
  fun _ hc => isNumeralPart_of_isDigit (Text.isDigit_of_mem_toDigits hc)

theorem numeric_zeros (n : Nat) : Numeric (zeros n) := by
  intro c hc
  rw [List.eq_of_mem_replicate hc]
  decide

theorem numeric_int (i : Int) : Numeric (toString i).toList := by
  intro c hc
  rcases Text.of_mem_int hc with rfl | hd
  · decide
  · exact isNumeralPart_of_isDigit hd

theorem numeric_positional (h : Numeric ds) (point : Int) : Numeric (positional ds point) := by
  unfold positional
  split_ifs
  · exact (Numeric.append (by decide) (numeric_zeros _)).append h
  · exact (h.append (numeric_zeros _)).append (by decide)
  · refine Numeric.append (fun c hc => h c (List.mem_of_mem_take hc)) (.cons (by decide) ?_)
    exact fun c hc => h c (List.mem_of_mem_drop hc)

theorem numeric_scientific (h : Numeric ds) (exponent : Int) :
    Numeric (scientific ds exponent) := by
  have hexponent : Numeric ('e' :: (toString exponent).toList) :=
    .cons (by decide) (numeric_int exponent)
  unfold scientific
  refine Numeric.append ?_ hexponent
  split
  · rw [Numeric, List.forall_mem_cons, List.forall_mem_cons] at h
    exact .cons h.1 (.cons (by decide) (.cons h.2.1 h.2.2))
  · exact h

theorem numeric_magnitude (fmt : Format) (m : Magnitude) :
    Numeric (defaultLayout.magnitude fmt m) := by
  unfold Layout.magnitude
  split
  · decide
  · decide
  · unfold Layout.decimal
    dsimp only
    split
    · exact numeric_positional (numeric_toDigits _) _
    · exact numeric_scientific (numeric_toDigits _) _

/-- What a numeral is written as is one. -/
theorem numeric_numeral (fmt : Format) (n : Numeral) :
    Numeric (defaultLayout.numeral fmt n).toList := by
  have hsigned : ∀ negative cs, Numeric cs → Numeric (signed negative cs) := by
    intro negative cs h
    cases negative
    · exact h
    · exact .cons (by decide) h
  cases n with
  | finite negative digits exponent =>
    rw [Layout.numeral, String.toList_ofList]
    exact hsigned _ _ (numeric_magnitude fmt _)
  | infinite negative =>
    rw [Layout.numeral, String.toList_ofList]
    exact hsigned _ _ (by decide)
  | nan =>
    change Numeric defaultLayout.notANumber.toList
    decide

end ProtoJava.Decimal

namespace ProtoJava.Mapping

open Decimal (Numeric)
open Java
open Schema (FieldType)

theorem neutral_of_numeric {s : String} (h : Numeric s.toList) : Neutral s :=
  neutral_of_plain fun c hc => isPlain_of (h c hc) (by decide)

theorem neutral_bytesLiteral (text : String) : Neutral (bytesLiteral text) := by
  have hbytes : Neutral (Text.joined ", "
      ((Text.unescape text.toList).map fun b => toString (Word.signed 8 b.toNat))) := by
    refine neutral_joined (fun _ => .lit rfl) ?_
    exact List.forall_mem_map.mpr fun b _ => neutral_int _
  intro a
  exact .append (.append (.lit rfl) hbytes.turn) (.lit rfl)

theorem neutral_unsignedLiteral {text : String} (h : Neutral text) (bits : Nat) :
    Neutral (unsignedLiteral bits text) := by
  unfold unsignedLiteral
  split
  · exact neutral_int _
  · exact h

theorem neutral_floatLiteral {className mark text : String} (hc : Neutral className)
    (hm : Neutral mark) (h : Neutral text) (fmt : Decimal.Format) :
    Neutral (floatLiteral fmt className mark text) := by
  unfold floatLiteral
  split_ifs
  · exact hc.append fun _ => .lit rfl
  · exact hc.append fun _ => .lit rfl
  · exact hc.append fun _ => .lit rfl
  · refine Neutral.append ?_ hm
    cases hn : Decimal.Numeral.read? text.toList with
    | none => exact h
    | some n => exact neutral_of_numeric (Decimal.numeric_numeral fmt n)

theorem FieldType.isNumeric_of_scalar {type : FieldType} {s : Scalar}
    (h : Scalar.ofType? type = some s) : type.isNumeric ∨ s = .string ∨ s = .bytes := by
  cases type <;> simp_all [Scalar.ofType?, FieldType.isNumeric]

/-- The literal for a default of a spelled field. -/
theorem neutral_literal {f : Schema.Field} {s : Scalar} {text : String} (hf : f.Spelled)
    (hs : Scalar.ofType? f.type = some s) (hd : f.defaultValue = some text) :
    Neutral (s.literal text) := by
  have htext : s ≠ .string → s ≠ .bytes → Neutral text := by
    intro hstring hbytes
    rcases FieldType.isNumeric_of_scalar hs with h | h | h
    · exact neutral_of_numeric (hf.default h text hd)
    · exact absurd h hstring
    · exact absurd h hbytes
  cases s with
  | bool => exact htext (by decide) (by decide)
  | int32 => exact htext (by decide) (by decide)
  | string => exact neutral_quoted text
  | bytes => exact neutral_bytesLiteral text
  | float =>
    exact neutral_floatLiteral (fun _ => .lit rfl) (fun _ => .lit rfl)
      (htext (by decide) (by decide)) _
  | double =>
    exact neutral_floatLiteral (fun _ => .lit rfl) (fun _ => .lit rfl)
      (htext (by decide) (by decide)) _
  | int64 => exact (htext (by decide) (by decide)).append fun _ => .lit rfl
  | uint32 => exact neutral_unsignedLiteral (htext (by decide) (by decide)) _
  | uint64 =>
    exact (neutral_unsignedLiteral (htext (by decide) (by decide)) _).append fun _ => .lit rfl

end ProtoJava.Mapping
