import ProtoJava.Mapping.Shape

/-! # Converted values

Expressions that turn single values of beans into values of protobuf-java and back.
-/

namespace ProtoJava.Converter

open Java (ClassName)
open Mapping
open Schema (MessageId)

def byteStringClass : ClassName := .top "com.google.protobuf" "ByteString"

def parseErrorClass : ClassName := .top "com.google.protobuf" "InvalidProtocolBufferException"

/-- The converter of one file, which is in `file`. -/
structure Site extends Context where
  file : Nat

namespace Site

def source (s : Site) : Schema.File :=
  s.graph.file s.file

/-- Whether enums hold numbers without a constant; protobuf-java then deals in numbers. -/
def openEnums (s : Site) : Bool :=
  s.source.dialect == .proto3

/-- What the accessors for values of a kind end in. -/
def accessorEnd (s : Site) : Value → String
  | .enum _ => if s.openEnums then "Value" else ""
  | _ => ""

def beanClass (s : Site) (id : MessageId) : Referring String :=
  s.referMessage id

def protoClass (s : Site) (id : MessageId) : Referring String :=
  refer (s.names.protoMessageClass s.graph id)

def protoEnumClass (s : Site) (id : Schema.EnumId) : Referring String :=
  refer (s.names.protoEnumClass s.graph id)

/-- A call of a conversion method for a message, which may belong to another converter. -/
def call (s : Site) (id : MessageId) (method argument : String) : Referring String := do
  if id.file = s.file then return method ++ "(" ++ argument ++ ")"
  else
    let class_ ← refer (s.names.converterClass s.options.converterPackage id.file)
    return class_ ++ "." ++ method ++ "(" ++ argument ++ ")"

/-- The type of one element as protobuf-java hands it out. -/
def elementType (s : Site) : Value → Referring String
  | .scalar .bytes => refer byteStringClass
  | .scalar scalar => return scalar.boxed
  | .message id => s.protoClass id
  | .enum id => if s.openEnums then return "Integer" else s.protoEnumClass id

/-- The bean form of a value of protobuf-java. -/
def decoded (s : Site) (expression : String) : Value → Referring String
  | .scalar .bytes => return expression ++ ".toByteArray()"
  | .scalar _ => return expression
  | .message id => s.call id (s.names.message id).converter.decode expression
  | .enum id => do
    let class_ ← s.referEnum id
    return class_ ++ ".forNumber(" ++ expression ++
      (if s.openEnums then ")" else ".getNumber())")

/-- The form of a bean value for protobuf-java. -/
def encoded (s : Site) (expression : String) : Value → Referring String
  | .scalar .bytes => return (← refer byteStringClass) ++ ".copyFrom(" ++ expression ++ ")"
  | .scalar _ => return expression
  | .message id => s.call id (s.names.message id).converter.encode expression
  | .enum id => do
    if s.openEnums then return expression ++ ".getNumber()"
    else return (← s.protoEnumClass id) ++ ".forNumber(" ++ expression ++ ".getNumber())"

end Site

end ProtoJava.Converter
