import ProtoJava.Java.Imports
import ProtoJava.Mapping.Property
import ProtoJava.Naming.Plan
import ProtoJava.Options

/-! # Rendering of properties

The Java types and expressions of a property. Naming a class may add an import.
-/

namespace ProtoJava.Mapping

open Java (ClassName Imports)
open Schema (EnumId MessageId Dialect)

/-- What sources are written from. -/
structure Context extends Scope where
  options : Options
  names : Naming.Allocation

/-- Text that names classes. -/
abbrev Referring := StateM Imports

/-- What to call a class. -/
def refer (c : ClassName) : Referring String :=
  modifyGet (·.reference c)

def listClass : ClassName := .top "java.util" "List"

def mapClass : ClassName := .top "java.util" "Map"

def arrayListClass : ClassName := .top "java.util" "ArrayList"

def hashMapClass : ClassName := .top "java.util" "HashMap"

def arraysClass : ClassName := .top "java.util" "Arrays"

namespace Context

def referMessage (ctx : Context) (id : MessageId) : Referring String :=
  refer (ctx.names.messageClass ctx.graph id)

def referEnum (ctx : Context) (id : EnumId) : Referring String :=
  refer (ctx.names.enumClass ctx.graph id)

/-- The first constant of an enum. -/
def firstConstant (ctx : Context) (id : EnumId) : Referring String :=
  match (ctx.names.enumNames id).constants with
  | [] => return "null"
  | constant :: _ => return (← ctx.referEnum id) ++ "." ++ constant

end Context

namespace Value

/-- The type of a value. -/
def type (ctx : Context) (boxed : Bool) : Value → Referring String
  | scalar s => return if boxed then s.boxed else s.primitive
  | message id => ctx.referMessage id
  | enum id => ctx.referEnum id

/-- What an unset value reads as. -/
def zero (ctx : Context) : Value → Referring String
  | scalar s => return s.zero
  | message _ => return "null"
  | enum id => ctx.firstConstant id

end Value

/-- The type of a list. -/
def listType (item : String) : Referring String := do
  return (← refer listClass) ++ "<" ++ item ++ ">"

namespace Property

/-- The type of values, or of a list of them. -/
def repeatedType (ctx : Context) (v : Value) (repeated boxed : Bool) : Referring String := do
  if repeated then listType (← v.type ctx true) else v.type ctx boxed

/-- The type of the bean field. -/
def type (ctx : Context) (p : Property) : Referring String :=
  match p.kind with
  | .scalar s repeated => repeatedType ctx (.scalar s) repeated p.nullable
  | .message id repeated => repeatedType ctx (.message id) repeated true
  | .enum id repeated => repeatedType ctx (.enum id) repeated true
  | .extension _ payload repeated => repeatedType ctx payload repeated false
  | .variant _ payload => payload.type ctx false
  | .map key v => do
    let map ← refer mapClass
    return map ++ "<" ++ key.boxed ++ ", " ++ (← v.type ctx true) ++ ">"

/-- The value of the constant for the explicit default. -/
def defaultValue (ctx : Context) (p : Property) : Referring (Option String) :=
  match p.default with
  | none => return none
  | some (.literal text) => return some text
  | some (.enum id number) =>
    return some ((← ctx.referEnum id) ++ ".forNumber(" ++ toString number ++ ")")

/-- The value of a constant, so that changes to it stay apart. -/
def ofConstant (p : Property) (constant : String) : String :=
  if p.isBytes then constant ++ ".clone()" else constant

/-- A new instance of a generic class. -/
def newInstance (c : ClassName) : Referring (Option String) := do
  let _ ← refer c
  return some ("new " ++ c.simple ++ "<>()")

/-- The initial value of the bean field, where it is not the one of its type. -/
def initializer (ctx : Context) (p : Property) (constant : Option String) :
    Referring (Option String) :=
  match constant with
  | some constant => return some (p.ofConstant constant)
  | none =>
    if p.nullable then return none
    else match p.kind with
      | .scalar _ true | .message _ true | .enum _ true => newInstance arrayListClass
      | .map _ _ => newInstance hashMapClass
      | .scalar .string false => return some "\"\""
      | .enum id false => return some (← ctx.firstConstant id)
      | _ => return none

/-- What the getter of a union member returns if another member is set. -/
def fallback (ctx : Context) (p : Property) (constant : Option String) : Referring String :=
  match constant with
  | some constant => return p.ofConstant constant
  | none =>
    match p.kind with
    | .variant _ payload => payload.zero ctx
    | _ => return "null"

/-- The declaration of the field in its schema. -/
def describe (p : Property) (dialect : Dialect) : String :=
  let f := p.field
  let word :=
    if f.isRepeated then "repeated "
    else if dialect = .proto3 ∧ ¬ f.proto3Optional then ""
    else f.cardinality.keyword ++ " "
  let typeName :=
    if f.type.isNamed then String.ofList (f.typeName.toList.dropWhile (· = '.'))
    else f.type.keyword
  let lead := match p.kind with
    | .map _ _ => "map"
    | _ => word ++ typeName
  lead ++ " " ++ f.name ++ " = " ++ toString f.number ++ "; (" ++ f.type.wireCategory.name ++ ")"

end Property

end ProtoJava.Mapping
