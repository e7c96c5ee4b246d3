/-! # Field types

The types and cardinalities that a field can be declared with, and the dialects of schema files.
-/

namespace ProtoJava.Schema

/-- How values of a type are laid out in an encoded message. -/
inductive WireCategory
  | varint | fixed32 | fixed64 | lengthDelimited | group
deriving Repr, DecidableEq, Inhabited

def WireCategory.name : WireCategory → String
  | varint => "varint"
  | fixed32 => "fixed32"
  | fixed64 => "fixed64"
  | lengthDelimited => "length-delimited"
  | group => "group"

inductive FieldType
  | double | float | int64 | uint64 | int32 | fixed64 | fixed32 | bool | string | group | message
  | bytes | uint32 | enum | sfixed32 | sfixed64 | sint32 | sint64
deriving Repr, DecidableEq, Inhabited

namespace FieldType

/-- The type a descriptor gives by number; an unknown number reads as `double`. -/
def ofNumber (n : Int) : FieldType :=
  match n with
  | 2 => float
  | 3 => int64
  | 4 => uint64
  | 5 => int32
  | 6 => fixed64
  | 7 => fixed32
  | 8 => bool
  | 9 => string
  | 10 => group
  | 11 => message
  | 12 => bytes
  | 13 => uint32
  | 14 => enum
  | 15 => sfixed32
  | 16 => sfixed64
  | 17 => sint32
  | 18 => sint64
  | _ => double

def wireCategory : FieldType → WireCategory
  | int32 | int64 | uint32 | uint64 | sint32 | sint64 | bool | enum => .varint
  | fixed32 | sfixed32 | float => .fixed32
  | fixed64 | sfixed64 | double => .fixed64
  | string | bytes | message => .lengthDelimited
  | group => .group

def isMessage : FieldType → Bool
  | message | group => true
  | _ => false

/-- Whether values of the type are of another declared type. -/
def isNamed : FieldType → Bool
  | message | group | enum => true
  | _ => false

/-- The word for the type in a schema file. -/
def keyword : FieldType → String
  | double => "double"
  | float => "float"
  | int64 => "int64"
  | uint64 => "uint64"
  | int32 => "int32"
  | fixed64 => "fixed64"
  | fixed32 => "fixed32"
  | bool => "bool"
  | string => "string"
  | group => "group"
  | message => "message"
  | bytes => "bytes"
  | uint32 => "uint32"
  | enum => "enum"
  | sfixed32 => "sfixed32"
  | sfixed64 => "sfixed64"
  | sint32 => "sint32"
  | sint64 => "sint64"

end FieldType

inductive Cardinality
  | optional | required | repeated
deriving Repr, DecidableEq, Inhabited

namespace Cardinality

/-- The cardinality a descriptor gives by number; an unknown number reads as `optional`. -/
def ofNumber (n : Int) : Cardinality :=
  match n with
  | 2 => required
  | 3 => repeated
  | _ => optional

/-- The word for the cardinality in a schema file. -/
def keyword : Cardinality → String
  | optional => "optional"
  | required => "required"
  | repeated => "repeated"

end Cardinality

inductive Dialect
  | proto2 | proto3
deriving Repr, DecidableEq, Inhabited

/-- The dialect a file states; a file that states none is in the older one. -/
def Dialect.ofName (name : String) : Dialect :=
  if name = "proto3" then proto3 else proto2

end ProtoJava.Schema
