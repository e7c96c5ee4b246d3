import ProtoJava.Descriptor.Basic
import ProtoJava.Descriptor.Kind

/-! # Decoding of descriptors

Descriptors of encoded messages.
-/

namespace ProtoJava.Descriptor

open Wire (Item text? texts int? ints bool records merged)

def Field.ofItems (items : List Item) : Field where
  name := (text? 1 items).getD ""
  extendee := text? 2 items
  number := (int? 3 items).getD 0
  label := (int? 4 items).getD 0
  type := (int? 5 items).getD 0
  typeName := (text? 6 items).getD ""
  defaultValue := text? 7 items
  deprecated := bool 3 (merged 8 items)
  oneofIndex := int? 9 items
  jsonName := text? 10 items
  proto3Optional := bool 17 items

def EnumValue.ofItems (items : List Item) : EnumValue where
  name := (text? 1 items).getD ""
  number := (int? 2 items).getD 0
  deprecated := bool 1 (merged 3 items)

def EnumType.ofItems (items : List Item) : EnumType where
  name := (text? 1 items).getD ""
  values := (records 2 items).map .ofItems
  deprecated := bool 3 (merged 3 items)

def ExtensionRange.ofItems (items : List Item) : ExtensionRange where
  start := (int? 1 items).getD 0
  stop := (int? 2 items).getD 0

/-- A message whose nested messages are known. -/
def Message.ofItems (items : List Item) (nested : List Message) : Message where
  name := (text? 1 items).getD ""
  fields := (records 2 items).map .ofItems
  nested
  enums := (records 4 items).map .ofItems
  extensionRanges := (records 5 items).map .ofItems
  extensions := (records 6 items).map .ofItems
  mapEntry := bool 7 (merged 7 items)
  deprecated := bool 3 (merged 7 items)
  oneofs := (records 8 items).map fun oneof => (text? 1 oneof).getD ""

/-- The messages in the fields of the given number, with the messages nested in them. -/
def messagesOf (number : Nat) : List Item → List Message
  | [] => []
  | .record n items :: r =>
    let rest := messagesOf number r
    if n = number then .ofItems items (messagesOf 3 items) :: rest else rest
  | _ :: r => messagesOf number r
  termination_by items => sizeOf items

def Location.ofItems (items : List Item) : Location where
  path := ints 1 items
  leading := text? 3 items
  trailing := text? 4 items

def File.ofItems (items : List Item) : File :=
  let options := merged 8 items
  { name := (text? 1 items).getD ""
    package := (text? 2 items).getD ""
    dependencies := texts 3 items
    messages := messagesOf 4 items
    enums := (records 5 items).map .ofItems
    extensions := (records 7 items).map .ofItems
    locations := (records 1 (merged 9 items)).map .ofItems
    publicDependencies := ints 10 items
    dialect := (text? 12 items).getD ""
    javaPackage := text? 1 options
    javaOuterClassname := text? 8 options
    javaMultipleFiles := bool 10 options
    deprecated := bool 23 options }

/-- The depth to which messages can be nested. -/
def nestingLimit : Nat := 100

/-- What sources are to be generated for. -/
structure Request where
  generate : List String := []
  parameter : String := ""
  files : List File := []
deriving Inhabited

/-- Decodes a request. -/
def Request.decode? (bytes : Wire.Bytes) : Option Request :=
  (Wire.readRecord? Kind.form nestingLimit .request bytes).map fun items =>
    { generate := texts 1 items
      parameter := (text? 2 items).getD ""
      files := (records 15 items).map .ofItems }

end ProtoJava.Descriptor
