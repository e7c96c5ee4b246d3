import ProtoJava.Wire.Reader
import ProtoJava.Word

/-! # Writing the wire format -/

namespace ProtoJava.Wire

/-- The shortest varint of a number. -/
def varint (n : Nat) : Bytes :=
  if n < 128 then [UInt8.ofNat n] else UInt8.ofNat (n % 128 + 128) :: varint (n / 128)
  termination_by n

def key (number : Nat) (layout : Layout) : Bytes :=
  varint (8 * number + layout.number)

def varintField (number value : Nat) : Bytes :=
  key number .varint ++ varint value

def bytesField (number : Nat) (bytes : Bytes) : Bytes :=
  key number .delimited ++ varint bytes.length ++ bytes

def textField (number : Nat) (s : String) : Bytes :=
  bytesField number s.toUTF8.toList

/-- Integers in one field; without any, there is no field. -/
def packedField (number : Nat) (is : List Int) : Bytes :=
  if is.isEmpty then [] else bytesField number (is.flatMap fun i => varint (Word.unsigned 64 i))

def optionalField {α : Type} (field : α → Bytes) : Option α → Bytes
  | none => []
  | some a => field a

end ProtoJava.Wire
