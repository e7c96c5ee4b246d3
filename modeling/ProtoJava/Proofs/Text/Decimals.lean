import Mathlib.Data.List.Basic

/-! # Decimal numbers

The characters of integers in decimal notation, from which the integers can be read again.
-/

namespace ProtoJava.Text

variable {n : Nat} {i : Int} {c : Char}

theorem toList_nat (n : Nat) : (toString n).toList = Nat.toDigits 10 n := by
  rw [Nat.toString_eq_repr, Nat.toList_repr]

theorem toList_int (i : Int) : (toString i).toList =
    if 0 ≤ i then Nat.toDigits 10 i.toNat else '-' :: Nat.toDigits 10 (-i).toNat := by
  have h : toString i = i.repr := rfl
  rw [h, Int.repr_eq_if]
  split
  · exact Nat.toList_repr
  · rw [String.toList_append, Nat.toList_repr]
    rfl

theorem isDigit_of_mem_toDigits (h : c ∈ Nat.toDigits 10 n) : c.isDigit :=
  Nat.isDigit_of_mem_toDigits (by decide) (by decide) h

theorem isDigit_of_mem_nat (h : c ∈ (toString n).toList) : c.isDigit :=
  isDigit_of_mem_toDigits (toList_nat n ▸ h)

theorem of_mem_int (h : c ∈ (toString i).toList) : c = '-' ∨ c.isDigit := by
  rw [toList_int] at h
  split at h
  · exact Or.inr (isDigit_of_mem_toDigits h)
  · exact (List.mem_cons.mp h).imp_right isDigit_of_mem_toDigits

theorem toList_nat_ne_nil (n : Nat) : (toString n).toList ≠ [] := by
  rw [toList_nat]
  exact Nat.toDigits_ne_nil

theorem toList_int_ne_nil (i : Int) : (toString i).toList ≠ [] := by
  rw [toList_int]
  split
  · exact Nat.toDigits_ne_nil
  · exact List.cons_ne_nil _ _

theorem toDigits_injective : Function.Injective (Nat.toDigits 10) :=
  Function.LeftInverse.injective fun _ => Nat.ofDigitChars_ten_toDigits

theorem toString_nat_injective : Function.Injective (toString : Nat → String) := by
  intro m n h
  have hl := congrArg String.toList h
  rw [toList_nat, toList_nat] at hl
  exact toDigits_injective hl

theorem toString_int_injective : Function.Injective (toString : Int → String) := by
  intro i j h
  have hl := congrArg String.toList h
  rw [toList_int, toList_int] at hl
  have hsign : ∀ {m n : Nat}, Nat.toDigits 10 m ≠ '-' :: Nat.toDigits 10 n := by
    intro m n hd
    have hmem : '-' ∈ Nat.toDigits 10 m := hd ▸ List.mem_cons_self
    exact absurd (isDigit_of_mem_toDigits hmem) (by decide)
  split_ifs at hl
  · have := toDigits_injective hl
    omega
  · exact absurd hl hsign
  · exact absurd hl.symm hsign
  · have := toDigits_injective (List.cons.inj hl).2
    omega

end ProtoJava.Text
