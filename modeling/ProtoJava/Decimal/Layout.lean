import ProtoJava.Decimal.Numeral
import ProtoJava.Decimal.Shortest

/-! # Layout of decimals

How a floating-point number is written: in positional notation with a digit on both sides of the
point, or with an exponent if it is very small or very large.
-/

namespace ProtoJava.Decimal

/-- Decimal exponents from `positionalFrom` up to but not including `positionalBelow` are written
positionally. -/
structure Layout where
  positionalFrom : Int
  positionalBelow : Int
  infinity : String
  notANumber : String

/-- Positional between a ten-thousandth and ten to the sixteenth. -/
def defaultLayout : Layout := ⟨-4, 16, "inf", "NaN"⟩

def zeros (n : Nat) : List Char :=
  List.replicate n '0'

/-- Digits with the point after `point` of them. -/
def positional (ds : List Char) (point : Int) : List Char :=
  if point ≤ 0 then ['0', '.'] ++ zeros (-point).toNat ++ ds
  else if (ds.length : Int) ≤ point then ds ++ zeros (point - ds.length).toNat ++ ['.', '0']
  else ds.take point.toNat ++ '.' :: ds.drop point.toNat

/-- Digits with the point after the first one, and the exponent that makes up for it. -/
def scientific (ds : List Char) (exponent : Int) : List Char :=
  let mantissa := match ds with
    | d :: e :: r => d :: '.' :: e :: r
    | _ => ds
  mantissa ++ 'e' :: (toString exponent).toList

/-- The text of a shortest decimal. -/
def Layout.decimal (l : Layout) (s : Shortest) : List Char :=
  let ds := Nat.toDigits 10 s.digits
  let point := (ds.length : Int) + s.exponent
  if l.positionalFrom ≤ point - 1 ∧ point - 1 < l.positionalBelow then positional ds point
  else scientific ds (point - 1)

/-- The text of a magnitude of a format. -/
def Layout.magnitude (l : Layout) (fmt : Format) : Magnitude → List Char
  | .infinite => l.infinity.toList
  | .finite 0 _ => ['0', '.', '0']
  | .finite (m + 1) unit => l.decimal (fmt.shortest (m + 1) unit)

def signed (negative : Bool) (cs : List Char) : List Char :=
  if negative then '-' :: cs else cs

/-- The text of the number of a format that is nearest to a numeral. -/
def Layout.numeral (l : Layout) (fmt : Format) : Numeral → String
  | .finite negative digits exponent =>
    String.ofList (signed negative (l.magnitude fmt (fmt.ofDecimal digits exponent)))
  | .infinite negative => String.ofList (signed negative l.infinity.toList)
  | .nan => l.notANumber

end ProtoJava.Decimal
