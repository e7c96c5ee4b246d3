import Mathlib.Algebra.Order.Field.Power
import Mathlib.Data.Rat.Cast.Order
import Mathlib.Tactic.FieldSimp
import Mathlib.Tactic.Linarith
import Mathlib.Tactic.Positivity
import Mathlib.Tactic.Ring
import ProtoJava.Decimal.Binary

/-! # Overflow

Rounding to a binary format gives an infinity just for magnitudes from the limit of the format on,
which is half a unit above its greatest number.
-/

namespace ProtoJava.Decimal

/-- The least magnitude that is too large for a format. -/
def Format.limit (fmt : Format) : ℚ :=
  (2 ^ (fmt.precision + 1) - 1) * 2 ^ (fmt.greatest - 1)

section Limits

variable (fmt : Format)

theorem Format.pow_le_limit :
    (2 : ℚ) ^ ((fmt.precision : Int) + fmt.greatest - 1) ≤ fmt.limit := by
  have hone : (1 : ℚ) ≤ 2 ^ fmt.precision := one_le_pow₀ (by norm_num)
  calc
    (2 : ℚ) ^ ((fmt.precision : Int) + fmt.greatest - 1) =
        2 ^ fmt.precision * 2 ^ (fmt.greatest - 1) := by
      rw [add_sub_assoc, zpow_add₀ (by norm_num), zpow_natCast]
    _ ≤ fmt.limit := by
      refine mul_le_mul_of_nonneg_right ?_ (by positivity)
      rw [pow_succ]
      linarith

theorem Format.limit_le_pow : fmt.limit ≤ 2 ^ ((fmt.precision : Int) + fmt.greatest) := by
  calc
    fmt.limit ≤ 2 ^ (fmt.precision + 1) * 2 ^ (fmt.greatest - 1) :=
      mul_le_mul_of_nonneg_right (by linarith) (by positivity)
    _ = 2 ^ ((fmt.precision : Int) + fmt.greatest) := by
      rw [← zpow_natCast, ← zpow_add₀ (by norm_num)]
      congr 1
      omega

end Limits

section Powers

variable (base : Nat)

theorem powParts_fst_pos (hb : 0 < base) (e : Int) : 0 < (powParts base e).1 :=
  Nat.pow_pos hb

theorem powParts_snd_pos (hb : 0 < base) (e : Int) : 0 < (powParts base e).2 :=
  Nat.pow_pos hb

/-- The two factors make a power. -/
theorem powParts_div (hb : 0 < base) (e : Int) :
    ((powParts base e).1 : ℚ) / (powParts base e).2 = (base : ℚ) ^ e := by
  have hne : (base : ℚ) ≠ 0 := by exact_mod_cast hb.ne'
  simp only [powParts, Nat.pow_eq, Nat.cast_pow]
  rw [← zpow_natCast, ← zpow_natCast, ← zpow_sub₀ hne]
  congr 1
  omega

theorem powParts_le_iff (hb : 0 < base) (e : Int) (x : Nat) {y : Nat} (hy : 0 < y) :
    y * (powParts base e).1 ≤ x * (powParts base e).2 ↔ (base : ℚ) ^ e ≤ x / y := by
  have hdown : (0 : ℚ) < (powParts base e).2 := by exact_mod_cast powParts_snd_pos base hb e
  have hy' : (0 : ℚ) < y := by exact_mod_cast hy
  rw [← powParts_div base hb, div_le_div_iff₀ hdown hy', mul_comm y]
  exact_mod_cast Iff.rfl

end Powers

section Rounding

variable {num den n : Nat}

/-- A quotient is rounded up to an even number from half below it on. -/
theorem le_roundHalfEven_iff (hd : 0 < den) (hn : Even n) :
    n ≤ roundHalfEven num den ↔ 2 * n * den ≤ 2 * num + den := by
  have hmod := Nat.mod_lt num hd
  have hdiv := Nat.div_add_mod num den
  unfold roundHalfEven
  generalize num / den = q at hdiv
  generalize num % den = r at hmod hdiv
  subst hdiv
  dsimp only
  rcases Nat.lt_trichotomy n (q + 1) with hlt | rfl | hgt
  · have hle : n * den ≤ q * den := Nat.mul_le_mul_right den (Nat.le_of_lt_succ hlt)
    constructor
    · intro _
      nlinarith
    · intro _
      split <;> omega
  · have hodd : q % 2 = 1 := Nat.not_even_iff.mp (Nat.even_add_one.mp hn)
    have hhalf : 2 * (q + 1) * den ≤ 2 * (den * q + r) + den ↔ den ≤ 2 * r := by
      constructor <;> intro h <;> nlinarith
    rw [hhalf]
    split <;> omega
  · have hle : (q + 2) * den ≤ n * den := Nat.mul_le_mul_right den hgt
    constructor
    · intro h
      split at h <;> omega
    · intro h
      nlinarith

theorem roundHalfEven_le (h : num < n * den) : roundHalfEven num den ≤ n := by
  have hq : num / den < n := Nat.div_lt_of_lt_mul (by rwa [Nat.mul_comm])
  unfold roundHalfEven
  dsimp only
  split <;> omega

theorem cast_log2_le (hn : 0 < n) : (2 : ℚ) ^ (n.log2 : Int) ≤ n := by
  rw [zpow_natCast]
  exact_mod_cast Nat.log2_self_le hn.ne'

theorem cast_lt_log2 (n : Nat) : (n : ℚ) < 2 ^ ((n.log2 : Int) + 1) := by
  have h : n < 2 ^ (n.log2 + 1) := Nat.lt_log2_self
  exact_mod_cast h

/-- A quotient lies between neighbouring powers of two. -/
theorem binaryExponent_spec (hn : 0 < num) (hd : 0 < den) :
    (2 : ℚ) ^ binaryExponent num den ≤ num / den ∧
      (num : ℚ) / den < 2 ^ (binaryExponent num den + 1) := by
  have hden : (0 : ℚ) < den := by exact_mod_cast hd
  have hcompare := powParts_le_iff 2 (by decide) ((num.log2 : Int) - den.log2) num hd
  have hlow := cast_log2_le hd
  have hhigh := cast_lt_log2 den
  have hlow' := cast_log2_le hn
  have hhigh' := cast_lt_log2 num
  unfold binaryExponent
  dsimp only
  rw [Nat.cast_ofNat] at hcompare
  split_ifs with hle <;> rw [hcompare] at hle
  · refine ⟨hle, ?_⟩
    rw [div_lt_iff₀ hden]
    calc
      (num : ℚ) < 2 ^ ((num.log2 : Int) + 1) := hhigh'
      _ = 2 ^ ((num.log2 : Int) - den.log2 + 1) * 2 ^ (den.log2 : Int) := by
        rw [← zpow_add₀ (by norm_num)]
        congr 1
        omega
      _ ≤ 2 ^ ((num.log2 : Int) - den.log2 + 1) * den := by gcongr
  · rw [sub_add_cancel]
    refine ⟨?_, not_le.mp hle⟩
    rw [le_div_iff₀ hden]
    calc
      (2 : ℚ) ^ ((num.log2 : Int) - den.log2 - 1) * den ≤
          2 ^ ((num.log2 : Int) - den.log2 - 1) * 2 ^ ((den.log2 : Int) + 1) := by gcongr
      _ = 2 ^ (num.log2 : Int) := by
        rw [← zpow_add₀ (by norm_num)]
        congr 1
        omega
      _ ≤ num := hlow'

end Rounding

section Formats

variable {fmt : Format} {num den p : Nat} {u : Int}

/-- The mantissa of a quotient in a unit. -/
def mantissa (num den : Nat) (u : Int) : Nat :=
  roundHalfEven (num * (powParts 2 u).2) (den * (powParts 2 u).1)

theorem pow_le_mantissa_iff (hp : 0 < p) (hd : 0 < den) :
    2 ^ p ≤ mantissa num den u ↔
      (2 ^ (p + 1) - 1) * (2 : ℚ) ^ (u - 1) ≤ num / den := by
  have hup := powParts_fst_pos 2 (by decide) u
  have hdown : (0 : ℚ) < (powParts 2 u).2 := by
    exact_mod_cast powParts_snd_pos 2 (by decide) u
  have hden : (0 : ℚ) < den := by exact_mod_cast hd
  have heven : Even (2 ^ p) := Even.pow_of_ne_zero (by decide) hp.ne'
  have hunit : (2 : ℚ) ^ (u - 1) = (powParts 2 u).1 / (powParts 2 u).2 / 2 := by
    rw [powParts_div _ (by decide), zpow_sub_one₀ (by norm_num), Nat.cast_ofNat, div_eq_mul_inv]
  rw [mantissa, le_roundHalfEven_iff (Nat.mul_pos hd hup) heven, hunit, div_div, ← mul_div_assoc,
    div_le_div_iff₀ (by positivity) hden, ← Nat.cast_le (α := ℚ)]
  push_cast
  rw [pow_succ']
  constructor <;> intro h <;> linarith

theorem mantissa_le (hd : 0 < den) (h : (num : ℚ) / den < 2 ^ (u + p)) :
    mantissa num den u ≤ 2 ^ p := by
  apply roundHalfEven_le
  have hdown : (0 : ℚ) < (powParts 2 u).2 := by
    exact_mod_cast powParts_snd_pos 2 (by decide) u
  have hden : (0 : ℚ) < den := by exact_mod_cast hd
  rw [zpow_add₀ (by norm_num), ← Nat.cast_ofNat (R := ℚ), ← powParts_div _ (by decide),
    zpow_natCast, div_lt_iff₀ hden, div_mul_eq_mul_div, div_mul_eq_mul_div, lt_div_iff₀ hdown] at h
  have hnat : num * (powParts 2 u).2 < (powParts 2 u).1 * 2 ^ p * den := by exact_mod_cast h
  calc
    num * (powParts 2 u).2 < (powParts 2 u).1 * 2 ^ p * den := hnat
    _ = 2 ^ p * (den * (powParts 2 u).1) := by ring

/-- The unit that a quotient is rounded in. -/
def Format.unit (fmt : Format) (num den : Nat) : Int :=
  max (binaryExponent num den - (fmt.precision - 1 : Nat)) fmt.least

/-- A quotient is too large if its unit is, or if it is rounded up to a power of two in the greatest
unit. -/
theorem round_eq_infinite (hn : 0 < num) : fmt.round num den = .infinite ↔
    fmt.greatest < fmt.unit num den ∨ fmt.unit num den = fmt.greatest ∧
      mantissa num den (fmt.unit num den) = 2 ^ fmt.precision := by
  have hunit : (if binaryExponent num den - (fmt.precision - 1 : Nat) < fmt.least then fmt.least
      else binaryExponent num den - (fmt.precision - 1 : Nat)) = fmt.unit num den := by
    unfold Format.unit
    split <;> omega
  unfold Format.round
  rw [if_neg hn.ne']
  dsimp only
  rw [hunit]
  change (match if mantissa num den (fmt.unit num den) = 2 ^ fmt.precision then _ else _ with
    | (m, unit) => if unit ≤ fmt.greatest then Magnitude.finite m unit else .infinite) = _ ↔ _
  by_cases hcarry : mantissa num den (fmt.unit num den) = 2 ^ fmt.precision
  · rw [if_pos hcarry]
    dsimp only
    split <;> simp [hcarry] <;> omega
  · rw [if_neg hcarry]
    dsimp only
    split <;> simp [hcarry] <;> omega

theorem round_eq_infinite_iff (hp : 0 < fmt.precision) (hf : fmt.least ≤ fmt.greatest)
    (hn : 0 < num) (hd : 0 < den) :
    fmt.round num den = .infinite ↔ fmt.limit ≤ (num : ℚ) / den := by
  obtain ⟨hlow, hhigh⟩ := binaryExponent_spec hn hd
  have hunit : binaryExponent num den + 1 ≤ fmt.unit num den + fmt.precision := by
    unfold Format.unit
    omega
  have hbound : (num : ℚ) / den < 2 ^ (fmt.unit num den + fmt.precision) :=
    hhigh.trans_le (zpow_le_zpow_right₀ (by norm_num) hunit)
  rw [round_eq_infinite hn]
  rcases lt_trichotomy (fmt.unit num den) fmt.greatest with hlt | heq | hgt
  · have hsmall : (num : ℚ) / den < fmt.limit := by
      calc
        (num : ℚ) / den < 2 ^ (fmt.unit num den + fmt.precision) := hbound
        _ ≤ 2 ^ ((fmt.precision : Int) + fmt.greatest - 1) :=
          zpow_le_zpow_right₀ (by norm_num) (by omega)
        _ ≤ fmt.limit := fmt.pow_le_limit
    simp only [not_le.mpr hsmall, iff_false]
    omega
  · have hle := mantissa_le (p := fmt.precision) hd hbound
    have hiff : 2 ^ fmt.precision ≤ mantissa num den fmt.greatest ↔ fmt.limit ≤ (num : ℚ) / den :=
      pow_le_mantissa_iff hp hd
    rw [← hiff, ← heq]
    omega
  · have hlarge : fmt.limit ≤ (num : ℚ) / den := by
      calc
        fmt.limit ≤ 2 ^ ((fmt.precision : Int) + fmt.greatest) := fmt.limit_le_pow
        _ ≤ 2 ^ binaryExponent num den := by
          apply zpow_le_zpow_right₀ (by norm_num)
          unfold Format.unit at hgt
          omega
        _ ≤ num / den := hlow
    simp only [hlarge, hgt, true_or]

end Formats

section Decimals

variable {fmt : Format}

/-- A format that has numbers above one, all of them within the decimals that are looked at. -/
structure Format.Reached (fmt : Format) : Prop where
  precision : 0 < fmt.precision
  least : fmt.least ≤ fmt.greatest
  greatest : 0 < fmt.greatest
  bits : fmt.precision + fmt.greatest ≤ 3 * decimalReach

theorem binary32_reached : binary32.Reached := by
  constructor <;> decide

theorem binary64_reached : binary64.Reached := by
  constructor <;> decide

theorem Format.Reached.le_limit (hf : fmt.Reached) : 10 ^ (-decimalReach) ≤ fmt.limit := by
  have hprecision := hf.precision
  have hgreatest := hf.greatest
  calc
    (10 : ℚ) ^ (-decimalReach) ≤ 1 := zpow_le_one_of_nonpos₀ (by norm_num) (by decide)
    _ ≤ 2 ^ ((fmt.precision : Int) + fmt.greatest - 1) := one_le_zpow₀ (by norm_num) (by omega)
    _ ≤ fmt.limit := fmt.pow_le_limit

theorem Format.Reached.limit_le (hf : fmt.Reached) : fmt.limit ≤ 10 ^ decimalReach := by
  calc
    fmt.limit ≤ 2 ^ ((fmt.precision : Int) + fmt.greatest) := fmt.limit_le_pow
    _ ≤ 2 ^ (3 * decimalReach) := zpow_le_zpow_right₀ (by norm_num) hf.bits
    _ = (2 ^ (3 : Int)) ^ decimalReach := zpow_mul ..
    _ ≤ 10 ^ decimalReach := zpow_le_zpow_left₀ (by decide) (by norm_num) (by norm_num)

theorem lt_pow_length_toDigits (n : Nat) : (n : ℚ) < 10 ^ ((Nat.toDigits 10 n).length : Int) := by
  rw [zpow_natCast]
  exact_mod_cast (Nat.length_toDigits_le_iff (by decide) Nat.length_toDigits_pos).mp le_rfl

theorem pow_length_toDigits_le {n : Nat} (hn : 0 < n) :
    (10 : ℚ) ^ (((Nat.toDigits 10 n).length : Int) - 1) ≤ n := by
  have hpos : 0 < (Nat.toDigits 10 n).length := Nat.length_toDigits_pos
  obtain ⟨k, hk⟩ := Nat.exists_eq_add_of_lt hpos
  have hle : 10 ^ k ≤ n := by
    rcases Nat.eq_zero_or_pos k with rfl | hk'
    · exact hn
    · by_contra hlt
      have := (Nat.length_toDigits_le_iff (b := 10) (by decide) hk').mpr (not_le.mp hlt)
      omega
  rw [hk, show ((0 + k + 1 : Nat) : Int) - 1 = k by omega, zpow_natCast]
  exact_mod_cast hle

/-- A decimal number is too large for a format just from the limit of the format on. -/
theorem ofDecimal_eq_infinite_iff (hf : fmt.Reached) (digits : Nat) (exponent : Int) :
    fmt.ofDecimal digits exponent = .infinite ↔ fmt.limit ≤ (digits : ℚ) * 10 ^ exponent := by
  have hten : (0 : ℚ) < 10 ^ exponent := by positivity
  have hbelow : (digits : ℚ) * 10 ^ exponent <
      10 ^ (((Nat.toDigits 10 digits).length : Int) + exponent) := by
    rw [zpow_add₀ (by norm_num)]
    exact mul_lt_mul_of_pos_right (lt_pow_length_toDigits digits) hten
  unfold Format.ofDecimal
  dsimp only
  split_ifs with hzero hlarge
  · have hsmall : (digits : ℚ) * 10 ^ exponent < fmt.limit := by
      refine lt_of_lt_of_le ?_ hf.le_limit
      rcases hzero with rfl | hpoint
      · rw [Nat.cast_zero, zero_mul]
        positivity
      · exact hbelow.trans_le (zpow_le_zpow_right₀ (by norm_num) hpoint.le)
    simp [not_le.mpr hsmall]
  · have hpos : 0 < digits := by omega
    have hreach : fmt.limit ≤ (digits : ℚ) * 10 ^ exponent := by
      calc
        fmt.limit ≤ 10 ^ decimalReach := hf.limit_le
        _ ≤ 10 ^ (((Nat.toDigits 10 digits).length : Int) - 1 + exponent) :=
          zpow_le_zpow_right₀ (by norm_num) (by omega)
        _ = 10 ^ (((Nat.toDigits 10 digits).length : Int) - 1) * 10 ^ exponent :=
          zpow_add₀ (by norm_num) ..
        _ ≤ digits * 10 ^ exponent :=
          mul_le_mul_of_nonneg_right (pow_length_toDigits_le hpos) hten.le
    simp [hreach]
  · have hpos : 0 < digits * (powParts 10 exponent).1 :=
      Nat.mul_pos (by omega) (powParts_fst_pos 10 (by decide) exponent)
    rw [round_eq_infinite_iff hf.precision hf.least hpos (powParts_snd_pos 10 (by decide) exponent),
      Nat.cast_mul, mul_div_assoc, powParts_div _ (by decide), Nat.cast_ofNat]

end Decimals

end ProtoJava.Decimal
