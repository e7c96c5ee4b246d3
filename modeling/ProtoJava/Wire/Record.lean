import ProtoJava.Wire.Reader
import ProtoJava.Word

/-! # Records

Encoded messages as their known fields in order of appearance. Which fields are known, and what
they hold, is given by a table of message kinds.
-/

namespace ProtoJava.Wire

/-- What a known field holds. -/
inductive Form (κ : Type)
  | varint
  /-- Any number of varints, packed or one by one. -/
  | varints
  | fixed64
  | text
  | bytes
  | message (kind : κ)

/-- A known field with its number. -/
inductive Item
  | varint (number value : Nat)
  | fixed64 (number value : Nat)
  | text (number : Nat) (value : String)
  | bytes (number : Nat) (value : Bytes)
  | record (number : Nat) (items : List Item)
deriving Inhabited

/-- Reads varints up to the end, of which there are at most `left`. -/
def readVarints? : Nat → Bytes → Option (List Nat)
  | _, [] => some []
  | 0, _ => none
  | left + 1, bytes => do
    let (n, r) ← readVarint? bytes
    return n :: (← readVarints? left r)

/-- Decodes UTF-8. -/
def decodeText? (bytes : Bytes) : Option String :=
  String.fromUTF8? ⟨bytes.toArray⟩

variable {κ : Type}

/-- Reads the value of a known field; `nested` reads the messages in it. -/
def readForm? (nested : κ → Bytes → Option (List Item)) (number : Nat) (form : Form κ)
    (layout : Layout) (bytes : Bytes) : Option (List Item × Bytes) :=
  match form, layout with
  | .varint, .varint | .varints, .varint =>
    (readVarint? bytes).map fun (n, r) => ([.varint number n], r)
  | .varints, .delimited => do
    let (packed, r) ← readDelimited? bytes
    let ns ← readVarints? packed.length packed
    return (ns.map (.varint number), r)
  | .fixed64, .fixed64 =>
    (takeBytes? 8 bytes).map fun (b, r) => ([.fixed64 number (littleEndian b)], r)
  | .text, .delimited => do
    let (b, r) ← readDelimited? bytes
    return ([.text number (← decodeText? b)], r)
  | .bytes, .delimited => (readDelimited? bytes).map fun (b, r) => ([.bytes number b], r)
  | .message kind, .delimited => do
    let (b, r) ← readDelimited? bytes
    return ([.record number (← nested kind b)], r)
  | _, _ => none

/-- Reads a field; an unknown one is skipped. -/
def readItem? (known : Nat → Option (Form κ)) (nested : κ → Bytes → Option (List Item))
    (budget : Nat) (bytes : Bytes) : Option (List Item × Bytes) := do
  let (number, layout, r) ← readKey? bytes
  match known number with
  | some form => readForm? nested number form layout r
  | none => return ([], ← skipField? budget number layout r)

/-- Reads fields up to the end, of which there are at most `left`. -/
def readItems? (read : Bytes → Option (List Item × Bytes)) : Nat → Bytes → Option (List Item)
  | _, [] => some []
  | 0, _ => none
  | left + 1, bytes => do
    let (items, r) ← read bytes
    return items ++ (← readItems? read left r)

/-- Reads a message of a kind, in which messages are nested at most `budget` deep. -/
def readRecord? (table : κ → Nat → Option (Form κ)) : Nat → κ → Bytes → Option (List Item)
  | 0, kind, bytes =>
    readItems? (readItem? (table kind) (fun _ _ => none) 0) bytes.length bytes
  | budget + 1, kind, bytes =>
    readItems? (readItem? (table kind) (readRecord? table budget) (budget + 1))
      bytes.length bytes

namespace Item

/-- The varint of a field. -/
def varint? (n : Nat) : Item → Option Nat
  | varint m value => if m = n then some value else none
  | _ => none

/-- The text of a field. -/
def text? (n : Nat) : Item → Option String
  | text m value => if m = n then some value else none
  | _ => none

/-- The message of a field. -/
def record? (n : Nat) : Item → Option (List Item)
  | record m items => if m = n then some items else none
  | _ => none

end Item

/-- The texts of field `n`. -/
def texts (n : Nat) (items : List Item) : List String :=
  items.filterMap (·.text? n)

/-- The text of field `n`, where the last one counts. -/
def text? (n : Nat) (items : List Item) : Option String :=
  (texts n items).getLast?

/-- The integers of field `n`, each in the lower half of a varint. -/
def ints (n : Nat) (items : List Item) : List Int :=
  (items.filterMap (·.varint? n)).map fun value => Word.signed 32 value

/-- The integer of field `n`, where the last one counts. -/
def int? (n : Nat) (items : List Item) : Option Int :=
  (ints n items).getLast?

/-- The truth value of field `n`, where the last one counts. -/
def bool (n : Nat) (items : List Item) : Bool :=
  (items.filterMap (·.varint? n)).getLast?.any (· ≠ 0)

/-- The messages of field `n`. -/
def records (n : Nat) (items : List Item) : List (List Item) :=
  items.filterMap (·.record? n)

/-- The message of field `n`, which all its occurrences make up together. -/
def merged (n : Nat) (items : List Item) : List Item :=
  (records n items).flatten

end ProtoJava.Wire
