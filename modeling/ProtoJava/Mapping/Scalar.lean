import ProtoJava.Schema.FieldType

/-! # Scalars

The kinds of scalar values that have Java types of their own.
-/

namespace ProtoJava.Mapping

open Schema (FieldType)

inductive Scalar
  | double | float | int32 | int64 | uint32 | uint64 | bool | string | bytes
deriving Repr, DecidableEq, Inhabited

namespace Scalar

/-- The scalar of a field type; how it is encoded makes no difference. -/
def ofType? : FieldType → Option Scalar
  | .double => some double
  | .float => some float
  | .int32 | .sint32 | .sfixed32 => some int32
  | .int64 | .sint64 | .sfixed64 => some int64
  | .uint32 | .fixed32 => some uint32
  | .uint64 | .fixed64 => some uint64
  | .bool => some bool
  | .string => some string
  | .bytes => some bytes
  | .message | .group | .enum => none

def primitive : Scalar → String
  | double => "double"
  | float => "float"
  | int32 | uint32 => "int"
  | int64 | uint64 => "long"
  | bool => "boolean"
  | string => "String"
  | bytes => "byte[]"

/-- The type inside generics and of fields that can be absent. -/
def boxed : Scalar → String
  | double => "Double"
  | float => "Float"
  | int32 | uint32 => "Integer"
  | int64 | uint64 => "Long"
  | bool => "Boolean"
  | string => "String"
  | bytes => "byte[]"

/-- What an unset field reads as. -/
def zero : Scalar → String
  | double => "0.0d"
  | float => "0.0f"
  | int32 | uint32 => "0"
  | int64 | uint64 => "0L"
  | bool => "false"
  | string => "\"\""
  | bytes => "null"

/-- Whether values of the type are references. -/
def isReference : Scalar → Bool
  | string | bytes => true
  | _ => false

end Scalar

end ProtoJava.Mapping
