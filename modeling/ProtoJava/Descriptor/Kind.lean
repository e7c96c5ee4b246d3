import ProtoJava.Wire.Record

/-! # Kinds of encoded messages

The messages that make up a request, with the fields each of them has.
-/

namespace ProtoJava.Descriptor

open Wire (Form)

inductive Kind
  | request | version | file | message | field | oneof | enum | enumValue | service | method
  | extensionRange | reservedRange | sourceInfo | location
  | fileOptions | messageOptions | fieldOptions | enumOptions | enumValueOptions
  | serviceOptions | methodOptions
  /-- Options without fields of their own. -/
  | plainOptions
  | uninterpretedOption | namePart
deriving Repr, DecidableEq, Inhabited

/-- The field that every kind of options has. -/
def optionForm : Nat → Option (Form Kind)
  | 999 => some (.message .uninterpretedOption)
  | _ => none

/-- The form of a field of a kind of message, by its number. -/
def Kind.form : Kind → Nat → Option (Form Kind)
  | request, n =>
    match n with
    | 1 | 2 => some .text
    | 3 => some (.message version)
    | 15 => some (.message file)
    | _ => none
  | version, n =>
    match n with
    | 1 | 2 | 3 => some .varint
    | 4 => some .text
    | _ => none
  | file, n =>
    match n with
    | 1 | 2 | 3 | 12 => some .text
    | 4 => some (.message message)
    | 5 => some (.message enum)
    | 6 => some (.message service)
    | 7 => some (.message field)
    | 8 => some (.message fileOptions)
    | 9 => some (.message sourceInfo)
    | 10 | 11 => some .varints
    | _ => none
  | message, n =>
    match n with
    | 1 | 10 => some .text
    | 2 | 6 => some (.message field)
    | 3 => some (.message message)
    | 4 => some (.message enum)
    | 5 => some (.message extensionRange)
    | 7 => some (.message messageOptions)
    | 8 => some (.message oneof)
    | 9 => some (.message reservedRange)
    | _ => none
  | field, n =>
    match n with
    | 1 | 2 | 6 | 7 | 10 => some .text
    | 3 | 4 | 5 | 9 | 17 => some .varint
    | 8 => some (.message fieldOptions)
    | _ => none
  | oneof, n =>
    match n with
    | 1 => some .text
    | 2 => some (.message plainOptions)
    | _ => none
  | enum, n =>
    match n with
    | 1 | 5 => some .text
    | 2 => some (.message enumValue)
    | 3 => some (.message enumOptions)
    | 4 => some (.message reservedRange)
    | _ => none
  | enumValue, n =>
    match n with
    | 1 => some .text
    | 2 => some .varint
    | 3 => some (.message enumValueOptions)
    | _ => none
  | service, n =>
    match n with
    | 1 => some .text
    | 2 => some (.message method)
    | 3 => some (.message serviceOptions)
    | _ => none
  | method, n =>
    match n with
    | 1 | 2 | 3 => some .text
    | 4 => some (.message methodOptions)
    | 5 | 6 => some .varint
    | _ => none
  | extensionRange, n =>
    match n with
    | 1 | 2 => some .varint
    | 3 => some (.message plainOptions)
    | _ => none
  | reservedRange, n =>
    match n with
    | 1 | 2 => some .varint
    | _ => none
  | sourceInfo, n =>
    match n with
    | 1 => some (.message location)
    | _ => none
  | location, n =>
    match n with
    | 1 | 2 => some .varints
    | 3 | 4 | 6 => some .text
    | _ => none
  | fileOptions, n =>
    match n with
    | 1 | 8 | 11 | 36 | 37 | 39 | 40 | 41 | 44 | 45 => some .text
    | 9 | 10 | 16 | 17 | 18 | 20 | 23 | 27 | 31 | 42 => some .varint
    | n => optionForm n
  | messageOptions, n =>
    match n with
    | 1 | 2 | 3 | 7 => some .varint
    | n => optionForm n
  | fieldOptions, n =>
    match n with
    | 1 | 2 | 3 | 5 | 6 | 10 => some .varint
    | n => optionForm n
  | enumOptions, n =>
    match n with
    | 2 | 3 => some .varint
    | n => optionForm n
  | enumValueOptions, n =>
    match n with
    | 1 => some .varint
    | n => optionForm n
  | serviceOptions, n =>
    match n with
    | 33 => some .varint
    | n => optionForm n
  | methodOptions, n =>
    match n with
    | 33 | 34 => some .varint
    | n => optionForm n
  | plainOptions, n => optionForm n
  | uninterpretedOption, n =>
    match n with
    | 2 => some (.message namePart)
    | 3 | 8 => some .text
    | 4 | 5 => some .varint
    | 6 => some .fixed64
    | 7 => some .bytes
    | _ => none
  | namePart, n =>
    match n with
    | 1 => some .text
    | 2 => some .varint
    | _ => none

end ProtoJava.Descriptor
