import ProtoJava.Word

/-! # Wire format

Reading of the protobuf wire format: varints, keys, and fields that are skipped because nobody
knows them. A reader returns what it read and the bytes after it.
-/

namespace ProtoJava.Wire

abbrev Bytes := List UInt8

/-- How the value of a field is laid out. -/
inductive Layout
  | varint | fixed64 | delimited | startGroup | endGroup | fixed32
deriving Repr, DecidableEq, Inhabited

def Layout.ofNumber? : Nat → Option Layout
  | 0 => some varint
  | 1 => some fixed64
  | 2 => some delimited
  | 3 => some startGroup
  | 4 => some endGroup
  | 5 => some fixed32
  | _ => none

def Layout.number : Layout → Nat
  | varint => 0
  | fixed64 => 1
  | delimited => 2
  | startGroup => 3
  | endGroup => 4
  | fixed32 => 5

/-- Reads the rest of a varint, of which `left` bytes may still come, from bit `shift` on. A last
byte has one bit left. -/
def readVarintFrom? (shift value : Nat) : Nat → Bytes → Option (Nat × Bytes)
  | 0, _ => none
  | _ + 1, [] => none
  | left + 1, b :: r =>
    let value := value + (b.toNat % 128) * Word.count shift
    if 128 ≤ b.toNat then readVarintFrom? (shift + 7) value left r
    else if left = 0 ∧ 1 < b.toNat then none
    else some (value, r)

/-- Reads a varint of at most ten bytes and 64 bits. -/
def readVarint? (bytes : Bytes) : Option (Nat × Bytes) :=
  readVarintFrom? 0 0 10 bytes

/-- Reads exactly `n` bytes. -/
def takeBytes? (n : Nat) (bytes : Bytes) : Option (Bytes × Bytes) :=
  let (taken, rest) := bytes.splitAt n
  if taken.length = n then some (taken, rest) else none

/-- Reads bytes that their length precedes. -/
def readDelimited? (bytes : Bytes) : Option (Bytes × Bytes) := do
  let (n, r) ← readVarint? bytes
  takeBytes? n r

/-- The number with the given bytes, lowest first. -/
def littleEndian (bytes : Bytes) : Nat :=
  bytes.foldr (fun b n => b.toNat + 256 * n) 0

/-- Reads the number and the layout of a field. -/
def readKey? (bytes : Bytes) : Option (Nat × Layout × Bytes) := do
  let (key, r) ← readVarint? bytes
  if Word.count 32 ≤ key ∨ key < 8 then none
  else
    let layout ← Layout.ofNumber? (key % 8)
    return (key / 8, layout, r)

/-- Skips the fields of group `number` up to its end, where `skip` skips one of them and `left`
bounds their number. -/
def skipGroup? (skip : Nat → Layout → Bytes → Option Bytes) (number : Nat) :
    Nat → Bytes → Option Bytes
  | 0, _ => none
  | left + 1, bytes =>
    match readKey? bytes with
    | none => none
    | some (inner, .endGroup, r) => if inner = number then some r else none
    | some (inner, layout, r) => (skip inner layout r).bind (skipGroup? skip number left)

/-- Skips the value of field `number`, in which groups are nested less than `budget` deep. -/
def skipField? : Nat → Nat → Layout → Bytes → Option Bytes
  | 0, _, _, _ => none
  | budget + 1, number, layout, bytes =>
    match layout with
    | .varint => (readVarint? bytes).map (·.2)
    | .fixed64 => (takeBytes? 8 bytes).map (·.2)
    | .delimited => (readDelimited? bytes).map (·.2)
    | .startGroup => skipGroup? (skipField? budget) number bytes.length bytes
    | .endGroup => none
    | .fixed32 => (takeBytes? 4 bytes).map (·.2)

end ProtoJava.Wire
