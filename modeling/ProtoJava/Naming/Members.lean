import ProtoJava.Naming.Classes
import ProtoJava.Naming.Plan
import ProtoJava.Text.Case

/-! # Members

The names of the members of one bean class: its fields, the accessors of its unions, and its
constants.
-/

namespace ProtoJava.Naming

open Schema (Message Field Oneof)

/-- What a member of a class is generated for. -/
inductive MemberRole
  | field (field : Nat)
  | union (oneof : Nat)
  | caseGetter (oneof : Nat)
  | setter (field : Nat)
  | getter (field : Nat)
  | number (field : Nat)
  | default (field : Nat)
  | extensionNumber (extension : Nat)
  | extensionExtendee (extension : Nat)
deriving Repr, DecidableEq, Inhabited

/-- Names of members by what they are generated for. -/
abbrev MemberTable := List (MemberRole × String)

/-- The members of a oneof that is a union. -/
def unionMembers (m : Message) (o : Oneof) : List Field :=
  m.fields.filter fun f => (m.union? f).any (·.index == o.index)

/-- Requests for the field of a union and the getter of its case, made with its first member. -/
def unionMemberRequests (m : Message) (o : Oneof) (f : Field) : MemberTable :=
  if (unionMembers m o).head?.any (·.index == f.index) then
    [(.union o.index, lowerCamel o.name), (.caseGetter o.index, "get" ++ camel o.name ++ "Case")]
  else []

/-- Requests for the field of a bean, or for the accessors of a member of a union. -/
def fieldRequests (m : Message) (f : Field) : MemberTable :=
  match m.union? f with
  | some o => unionMemberRequests m o f ++
    [(.setter f.index, "set" ++ camel f.name), (.getter f.index, "get" ++ camel f.name)]
  | none => [(.field f.index, lowerCamel f.name)]

def numberConstant (f : Field) : String :=
  upperSnake f.name ++ "_FIELD_NUMBER"

/-- Requests for the constants of extensions. -/
def extensionRequests (extensions : List Field) : MemberTable :=
  extensions.flatMap fun e => [
    (.extensionNumber e.index, numberConstant e),
    (.extensionExtendee e.index, upperSnake e.name ++ "_EXTENDEE")]

/-- Whether a field has a constant for its default. -/
def hasDefaultConst (f : Field) : Bool :=
  f.defaultValue.isSome && !f.isRepeated

/-- Requests for all members of a class. -/
def memberRequests (m : Message) : MemberTable :=
  m.fields.flatMap (fieldRequests m) ++
    (m.fields.map fun f => (.number f.index, numberConstant f)) ++
    ((m.fields.filter hasDefaultConst).map fun f =>
      (.default f.index, "DEFAULT_" ++ upperSnake f.name)) ++
    extensionRequests m.extensions

/-- The members of a class, beside those that every class has. -/
def memberTable (m : Message) : MemberTable :=
  ((Registry.reserving.reserve objectMethods).grant (memberRequests m)).1

def extensionNames (table : MemberTable) (extensions : List Field) : List ExtensionNames :=
  extensions.map fun e =>
    ⟨nameFor table (.extensionNumber e.index), nameFor table (.extensionExtendee e.index)⟩

def memberNames (m : Message) (table : MemberTable) (f : Field) : MemberNames where
  field := match m.union? f with
    | some _ => Registry.reserving.answer (lowerCamel f.name)
    | none => nameFor table (.field f.index)
  numberConst := nameFor table (.number f.index)
  defaultConst := table.lookup (.default f.index)
  accessor := accessorStem f.name

/-- What a constant of a case enum stands for. -/
inductive CaseRole
  | variant (field : Nat)
  | notSet
deriving Repr, DecidableEq, Inhabited

/-- The constants of the case enum of a union. -/
def caseTable (members : List Field) (o : Oneof) : List (CaseRole × String) :=
  let requests := (members.map fun f => (CaseRole.variant f.index, upperSnake f.name)) ++
    [(.notSet, upperSnake o.name ++ "_NOT_SET")]
  ((Registry.reserving.reserve enumMembers).grant requests).1

/-- The names of a union, if the oneof is one. -/
def unionNames (m : Message) (scope : ClassTable) (table : MemberTable) (o : Oneof) :
    Option UnionNames :=
  if o.synthetic then none
  else
    let members := unionMembers m o
    let cases := caseTable members o
    some {
      field := nameFor table (.union o.index)
      iface := nameFor scope (.iface o.index)
      caseEnum := nameFor scope (.caseEnum o.index)
      caseGetter := nameFor table (.caseGetter o.index)
      notSet := nameFor cases .notSet
      protoCaseGetter := "get" ++ accessorStem o.name ++ "Case"
      protoNotSet := Text.toUpper o.name ++ "_NOT_SET"
      variants := members.map fun f => {
        fieldIndex := f.index
        wrapper := nameFor scope (.variant f.index)
        caseConstant := nameFor cases (.variant f.index)
        setter := nameFor table (.setter f.index)
        getter := nameFor table (.getter f.index)
        protoCaseConstant := Text.toUpper f.name } }

end ProtoJava.Naming
