/-! # Decimal numerals

Reading of decimal floating-point numerals: an optional sign, digits with an optional point and an
optional exponent, or a word for infinity or for no number.
-/

namespace ProtoJava.Decimal

/-- What a numeral says: `digits · 10 ^ exponent`, an infinity, or no number. -/
inductive Numeral
  | finite (negative : Bool) (digits : Nat) (exponent : Int)
  | infinite (negative : Bool)
  | nan
deriving Repr, DecidableEq, Inhabited

/-- The value of a run of decimal digits. -/
def digitsValue (ds : List Char) : Nat :=
  ds.foldl (fun n c => n * 10 + (c.toNat - 0x30)) 0

/-- Takes a sign off; `true` is the minus sign. -/
def takeSign : List Char → Bool × List Char
  | '-' :: r => (true, r)
  | '+' :: r => (false, r)
  | cs => (false, cs)

/-- Reads an exponent up to the end of the text; an empty text is the exponent zero. -/
def readExponent? : List Char → Option Int
  | [] => some 0
  | c :: r =>
    if c = 'e' ∨ c = 'E' then
      let (negative, ds) := takeSign r
      if ds ≠ [] ∧ ds.all Char.isDigit then
        some (if negative then -(digitsValue ds : Int) else digitsValue ds)
      else none
    else none

/-- The digits after a point and what follows them. -/
def takeFraction : List Char → List Char × List Char
  | '.' :: r => (r.takeWhile Char.isDigit, r.dropWhile Char.isDigit)
  | cs => ([], cs)

/-- Reads a numeral without a sign. -/
def readUnsigned? (negative : Bool) (cs : List Char) : Option Numeral :=
  let word := String.ofList (cs.map Char.toLower)
  if word = "inf" ∨ word = "infinity" then some (.infinite negative)
  else if word = "nan" then some .nan
  else
    let whole := cs.takeWhile Char.isDigit
    let (fraction, rest) := takeFraction (cs.dropWhile Char.isDigit)
    if whole = [] ∧ fraction = [] then none
    else (readExponent? rest).map fun e =>
      .finite negative (digitsValue (whole ++ fraction)) (e - fraction.length)

/-- Reads a numeral. -/
def Numeral.read? (cs : List Char) : Option Numeral :=
  let (negative, r) := takeSign cs
  readUnsigned? negative r

/-- Reads an unsigned integer below `bound`; a plus sign may precede it. -/
def readNat? (bound : Nat) (cs : List Char) : Option Nat :=
  let ds := match cs with
    | '+' :: r => r
    | _ => cs
  if ds ≠ [] ∧ ds.all Char.isDigit ∧ digitsValue ds < bound then some (digitsValue ds) else none

end ProtoJava.Decimal
