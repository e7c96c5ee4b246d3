import ProtoJava.Schema.FieldType
import ProtoJava.Text.Pieces

/-! # Schemas

Files with their declarations laid out flat and linked by position: every message of a file is in
one list, in which a message precedes the messages nested in it.
-/

namespace ProtoJava.Schema

/-- A path from a file to a declaration, by field number and position in turn. -/
abbrev Path := List Int

/-- A message, by the positions of its file and of itself in that file. -/
structure MessageId where
  file : Nat
  index : Nat
deriving Repr, DecidableEq, Inhabited

/-- An enum, by the positions of its file and of itself in that file. -/
structure EnumId where
  file : Nat
  index : Nat
deriving Repr, DecidableEq, Inhabited

/-- A declared type. -/
inductive TypeRef
  | message (id : MessageId)
  | enum (id : EnumId)
deriving Repr, DecidableEq, Inhabited

structure Comments where
  leading : Option String := none
  trailing : Option String := none
deriving Repr, DecidableEq, Inhabited

structure JavaOptions where
  package : Option String := none
  outerClassname : Option String := none
  multipleFiles : Bool := false
deriving Repr, DecidableEq, Inhabited

structure Field where
  name : String := ""
  jsonName : Option String := none
  number : Int := 0
  cardinality : Cardinality := .optional
  type : FieldType := .double
  typeName : String := ""
  oneofIndex : Option Nat := none
  defaultValue : Option String := none
  proto3Optional : Bool := false
  extendee : Option String := none
  deprecated : Bool := false
  index : Nat := 0
  path : Path := []
deriving Repr, DecidableEq, Inhabited

def Field.isRepeated (f : Field) : Bool :=
  f.cardinality == .repeated

/-- A oneof; a synthetic one stands for a field with explicit presence and is no union. -/
structure Oneof where
  name : String := ""
  index : Nat := 0
  path : Path := []
  fields : List Nat := []
  synthetic : Bool := false
deriving Repr, DecidableEq, Inhabited

structure Message where
  name : String := ""
  typeName : List String := []
  fullName : String := ""
  path : Path := []
  index : Nat := 0
  parent : Option Nat := none
  fields : List Field := []
  oneofs : List Oneof := []
  extensions : List Field := []
  nested : List Nat := []
  enums : List Nat := []
  declaredNested : Nat := 0
  declaredEnums : Nat := 0
  mapEntry : Bool := false
  group : Bool := false
  deprecated : Bool := false
  extensionRanges : List (Int × Int) := []
deriving Repr, DecidableEq, Inhabited

/-- The union a field is a member of. -/
def Message.union? (m : Message) (f : Field) : Option Oneof :=
  (f.oneofIndex.bind fun i => m.oneofs[i]?).filter (!·.synthetic)

structure EnumValue where
  name : String := ""
  number : Int := 0
  path : Path := []
  deprecated : Bool := false
  /-- Position of the first value with the same number, if that is an earlier one. -/
  aliasOf : Option Nat := none
deriving Repr, DecidableEq, Inhabited

structure EnumType where
  name : String := ""
  typeName : List String := []
  fullName : String := ""
  path : Path := []
  index : Nat := 0
  parent : Option Nat := none
  values : List EnumValue := []
  deprecated : Bool := false
deriving Repr, DecidableEq, Inhabited

def EnumType.valueNamed? (e : EnumType) (name : String) : Option EnumValue :=
  e.values.find? (·.name = name)

structure File where
  id : Nat := 0
  name : String := ""
  package : String := ""
  dialect : Dialect := .proto2
  java : JavaOptions := {}
  deprecated : Bool := false
  dependencies : List String := []
  /-- Every message precedes the messages nested in it. -/
  messages : List Message := []
  /-- Enums of the file itself, then those of its messages in order. -/
  enums : List EnumType := []
  extensions : List Field := []
  comments : List (Path × Comments) := []
  /-- The types that importers of this file see through its public imports. -/
  reexports : List TypeRef := []
deriving Repr, DecidableEq, Inhabited

/-- A dotted name with a leading dot, under the package if there is one. -/
def fullName (package : String) (typeName : List String) : String :=
  if package.isEmpty then "." ++ Text.joined "." typeName
  else "." ++ package ++ "." ++ Text.joined "." typeName

/-- A path as text. -/
def pathKey (path : Path) : String :=
  Text.joined "," (path.map toString)

namespace File

def message (f : File) (i : Nat) : Message :=
  f.messages.getD i {}

def enumType (f : File) (i : Nat) : EnumType :=
  f.enums.getD i {}

/-- Positions of the messages that are not nested. -/
def topMessages (f : File) : List Nat :=
  (f.messages.zipIdx.filter (·.1.parent.isNone)).map (·.2)

/-- Positions of the enums that are not nested. -/
def topEnums (f : File) : List Nat :=
  (f.enums.zipIdx.filter (·.1.parent.isNone)).map (·.2)

def commentsAt? (f : File) (path : Path) : Option Comments :=
  f.comments.lookup path

/-- The name of the file without its directory and ending. -/
def baseName (f : File) : String :=
  let base := Text.lastPiece '/' f.name.toList
  String.ofList ((Text.dropSuffix? ".proto".toList base).getD base)

/-- The types a file declares, map entries apart. -/
def exported (f : File) : List TypeRef :=
  ((f.messages.zipIdx.filter (!·.1.mapEntry)).map fun p => .message ⟨f.id, p.2⟩) ++
    f.enums.zipIdx.map fun p => .enum ⟨f.id, p.2⟩

/-- A message and the messages around it, innermost first. -/
def enclosing (f : File) (i : Nat) : List Nat :=
  match (f.message i).parent with
  | none => [i]
  | some p => if p < i then i :: f.enclosing p else [i]

end File

end ProtoJava.Schema
