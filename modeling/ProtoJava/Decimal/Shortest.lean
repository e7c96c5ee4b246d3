import ProtoJava.Decimal.Binary

/-! # Shortest decimals

The decimal with the fewest digits that reads back as a given number, and of several the one
nearest to it. A decimal reads back if it lies between the midpoints to the neighbouring numbers;
the midpoints themselves read back if the mantissa is even.
-/

namespace ProtoJava.Decimal

/-- The decimal `digits · 10 ^ exponent`. -/
structure Shortest where
  digits : Nat
  exponent : Int
deriving Repr, DecidableEq, Inhabited

/-- A number and the midpoints to its neighbours, in quarters of its unit. -/
structure Interval where
  low : Nat
  value : Nat
  high : Nat
  closed : Bool
deriving Repr, DecidableEq

/-- The interval of a mantissa; below a power of two the neighbours are closer. -/
def Format.interval (fmt : Format) (mantissa : Nat) (unit : Int) : Interval where
  low := if mantissa = Nat.pow 2 (fmt.precision - 1) ∧ fmt.least < unit then 4 * mantissa - 1
    else 4 * mantissa - 2
  value := 4 * mantissa
  high := 4 * mantissa + 2
  closed := mantissa % 2 == 0

/-- Whether `x / scale` lies in an interval. -/
def Interval.holds (i : Interval) (x scale : Nat) : Bool :=
  if i.closed then i.low * scale ≤ x && x ≤ i.high * scale
  else i.low * scale < x && x < i.high * scale

/-- The multiple of `10 ^ k` next to the number that lies in the interval, if there is one. Of two
the nearer counts, and the greater if both are as near. -/
def gridPoint? (i : Interval) (unit k : Int) : Option Nat :=
  let (up2, down2) := powParts 2 (unit - 2)
  let (up10, down10) := powParts 10 k
  let step := up10 * down2
  let scale := up2 * down10
  let below := i.value * scale / step
  let nearBelow := 2 * (i.value * scale - below * step) < step
  if i.holds (below * step) scale ∧ (nearBelow ∨ ¬ i.holds ((below + 1) * step) scale) then
    some below
  else if i.holds ((below + 1) * step) scale then some (below + 1)
  else none

/-- The first of `count` grids, from `10 ^ k` downwards, that has a point in the interval. -/
def coarsest (i : Interval) (unit : Int) : Nat → Int → Shortest
  | 0, k => ⟨0, k⟩
  | count + 1, k =>
    match gridPoint? i unit k with
    | some d => ⟨d, k⟩
    | none => coarsest i unit count (k - 1)

/-- An exponent of ten whose power is above `2 ^ bits`. -/
def decimalBound (bits : Int) : Int :=
  bits * 30103 / 100000 + 2

/-- The shortest decimal of `mantissa · 2 ^ unit`, which is not zero. -/
def Format.shortest (fmt : Format) (mantissa : Nat) (unit : Int) : Shortest :=
  coarsest (fmt.interval mantissa unit) unit 24 (decimalBound (Nat.log2 mantissa + unit + 2))

end ProtoJava.Decimal
