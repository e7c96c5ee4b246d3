import ProtoJava.Error
import ProtoJava.Mapping.Literal
import ProtoJava.Schema.Index

/-! # Properties

What a field becomes in a bean, found by resolving the types that it names.
-/

namespace ProtoJava.Mapping

open Schema (MessageId EnumId Field Message Graph Index)

/-- A single value of a field. -/
inductive Value
  | scalar (s : Scalar)
  | message (id : MessageId)
  | enum (id : EnumId)
deriving Repr, DecidableEq, Inhabited

inductive Kind
  | scalar (value : Scalar) (repeated : Bool)
  | message (id : MessageId) (repeated : Bool)
  | enum (id : EnumId) (repeated : Bool)
  | map (key : Scalar) (value : Value)
  /-- A member of a union. -/
  | variant (oneof : Nat) (payload : Value)
  | extension (extendee : MessageId) (payload : Value) (repeated : Bool)
deriving Repr, DecidableEq, Inhabited

/-- An explicit default. -/
inductive Default
  | literal (text : String)
  /-- The value of an enum, by its number. -/
  | enum (id : EnumId) (number : Int)
deriving Repr, DecidableEq, Inhabited

/-- A field with what it becomes. -/
structure Property where
  field : Field
  kind : Kind
  default : Option Default
  /-- Absence is told apart from the zero value. -/
  nullable : Bool
deriving Repr, DecidableEq, Inhabited

/-- What the resolution of names works on. -/
structure Scope where
  graph : Graph
  index : Index

namespace Scope

/-- One value of a field. -/
def value (s : Scope) (f : Field) : Except Error Value :=
  match Scalar.ofType? f.type with
  | some scalar => .ok (.scalar scalar)
  | none =>
    if f.type.isMessage then (ofSchema (s.index.resolveMessage f.typeName)).map .message
    else (ofSchema (s.index.resolveEnum f.typeName)).map .enum

/-- The map whose entries are of message `id`. -/
def mapOf (s : Scope) (id : MessageId) : Except Error Kind :=
  let entry := s.graph.message id
  let key := (entry.fields.find? (·.number = 1)).bind fun f => Scalar.ofType? f.type
  match key, entry.fields.find? (·.number = 2) with
  | some key, some f => (s.value f).map (.map key)
  | _, _ => .error (.malformedMapEntry entry.fullName)

/-- The kind of a field that is no extension and no member of a union. -/
def plainKind (s : Scope) (repeated : Bool) : Value → Except Error Kind
  | .message id =>
    if repeated && (s.graph.message id).mapEntry then s.mapOf id else .ok (.message id repeated)
  | .enum id => .ok (.enum id repeated)
  | .scalar scalar => .ok (.scalar scalar repeated)

/-- The kind of a field with the given value that `m` declares, or the file if there is no `m`. -/
def kind (s : Scope) (m : Option Message) (f : Field) (v : Value) : Except Error Kind :=
  match f.extendee, m.bind (·.union? f) with
  | some extendee, _ =>
    (ofSchema (s.index.resolveMessage extendee)).map fun id => .extension id v f.isRepeated
  | none, some o => .ok (.variant o.index v)
  | none, none => s.plainKind f.isRepeated v

/-- The explicit default of a field with the given value. -/
def default (s : Scope) (f : Field) (v : Value) : Except Error (Option Default) :=
  match if f.isRepeated then none else f.defaultValue with
  | none => .ok none
  | some text =>
    match v with
    | .message _ => .ok none
    | .scalar scalar => .ok (some (.literal (scalar.literal text)))
    | .enum id =>
      match (s.graph.enumType id).valueNamed? text with
      | some value => .ok (some (.enum id value.number))
      | none => .error (.unknownEnumDefault f.name text)

/-- What a field becomes that `m` declares, or the file if there is no `m`. -/
def classify (s : Scope) (m : Option Message) (f : Field) : Except Error Property := do
  let v ← s.value f
  let kind ← s.kind m f v
  let default ← s.default f v
  let nullable := f.proto3Optional && match v with
    | .message _ => false
    | _ => true
  return ⟨f, kind, default, nullable⟩

end Scope

namespace Property

/-- The single values of a property; a map has none. -/
def value? (p : Property) : Option Value :=
  match p.kind with
  | .scalar value _ => some (.scalar value)
  | .message id _ => some (.message id)
  | .enum id _ => some (.enum id)
  | .variant _ payload | .extension _ payload _ => some payload
  | .map _ _ => none

def isBytes (p : Property) : Bool :=
  p.value? == some (.scalar .bytes)

end Property

end ProtoJava.Mapping
