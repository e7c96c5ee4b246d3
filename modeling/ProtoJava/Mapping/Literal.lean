import ProtoJava.Decimal.Layout
import ProtoJava.Mapping.Scalar
import ProtoJava.Text.ByteEscape
import ProtoJava.Text.Pieces
import ProtoJava.Text.Quoted
import ProtoJava.Word

/-! # Literals

Explicit defaults as Java literals. Unsigned integers become the signed ones with the same bits.
-/

namespace ProtoJava.Mapping

/-- An array of the bytes that a text with escapes denotes. -/
def bytesLiteral (text : String) : String :=
  let bytes := (Text.unescape text.toList).map fun b => toString (Word.signed 8 b.toNat)
  "new byte[] \x7b" ++ Text.joined ", " bytes ++ "\x7d"

/-- An unsigned integer; a text that is none stays as it is. -/
def unsignedLiteral (bits : Nat) (text : String) : String :=
  match Decimal.readNat? (Word.count bits) text.toList with
  | some n => toString (Word.signed bits n)
  | none => text

/-- A floating-point number of a format; a text that is none stays as it is. -/
def floatLiteral (fmt : Decimal.Format) (className mark text : String) : String :=
  if text = "inf" then className ++ ".POSITIVE_INFINITY"
  else if text = "-inf" then className ++ ".NEGATIVE_INFINITY"
  else if text = "nan" then className ++ ".NaN"
  else
    let number := (Decimal.Numeral.read? text.toList).map (Decimal.defaultLayout.numeral fmt)
    number.getD text ++ mark

/-- The literal of an explicit default. -/
def Scalar.literal (text : String) : Scalar → String
  | bool | int32 => text
  | string => Text.quoted text
  | bytes => bytesLiteral text
  | float => floatLiteral Decimal.binary32 "Float" "f" text
  | double => floatLiteral Decimal.binary64 "Double" "d" text
  | int64 => text ++ "L"
  | uint32 => unsignedLiteral 32 text
  | uint64 => unsignedLiteral 64 text ++ "L"

end ProtoJava.Mapping
