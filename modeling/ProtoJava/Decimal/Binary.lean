/-! # Binary floating-point numbers

Formats of binary floating-point numbers, and the number of a format that is nearest to a quotient;
a quotient halfway between two goes to the one with an even mantissa.
-/

namespace ProtoJava.Decimal

/-- Mantissas of `precision` bits, with powers of two from `least` to `greatest` as their units. -/
structure Format where
  precision : Nat
  least : Int
  greatest : Int
deriving Repr, DecidableEq

def binary32 : Format := ⟨24, -149, 104⟩

def binary64 : Format := ⟨53, -1074, 971⟩

/-- The magnitude of a number: `mantissa · 2 ^ unit`, or too large for its format. -/
inductive Magnitude
  | finite (mantissa : Nat) (unit : Int)
  | infinite
deriving Repr, DecidableEq, Inhabited

/-- The factors that turn `x · base ^ e` into the quotient `x · (·.1) / (·.2)`. -/
def powParts (base : Nat) (e : Int) : Nat × Nat :=
  (Nat.pow base e.toNat, Nat.pow base (-e).toNat)

/-- `num / den` to the nearest integer, a half to the even one. -/
def roundHalfEven (num den : Nat) : Nat :=
  let q := num / den
  let r := num % den
  if den < 2 * r ∨ (2 * r = den ∧ q % 2 = 1) then q + 1 else q

/-- The exponent of the greatest power of two that is at most `num / den`. -/
def binaryExponent (num den : Nat) : Int :=
  let e : Int := (Nat.log2 num : Int) - Nat.log2 den
  let (up, down) := powParts 2 e
  if den * up ≤ num * down then e else e - 1

/-- The magnitude of the format nearest to `num / den`. -/
def Format.round (fmt : Format) (num den : Nat) : Magnitude :=
  if num = 0 then .finite 0 fmt.least
  else
    let exact := binaryExponent num den - (fmt.precision - 1 : Nat)
    let unit := if exact < fmt.least then fmt.least else exact
    let (up, down) := powParts 2 unit
    let m := roundHalfEven (num * down) (den * up)
    let (m, unit) := if m = Nat.pow 2 fmt.precision then (m / 2, unit + 1) else (m, unit)
    if unit ≤ fmt.greatest then .finite m unit else .infinite

/-- Decimal numbers with a decimal point so far out are beyond every format. -/
def decimalReach : Int := 400

/-- The magnitude of the format nearest to `digits · 10 ^ exponent`. -/
def Format.ofDecimal (fmt : Format) (digits : Nat) (exponent : Int) : Magnitude :=
  let point := (Nat.toDigits 10 digits).length + exponent
  if digits = 0 ∨ point < -decimalReach then .finite 0 fmt.least
  else if decimalReach < point then .infinite
  else
    let (up, down) := powParts 10 exponent
    fmt.round (digits * up) down

end ProtoJava.Decimal
