import ProtoJava.Schema.Basic
import ProtoJava.Schema.Error

/-! # Linking

Attaches nested declarations to the messages they name as their parent. Each message says how many
it declares; the first one with another number of children stops the linking, and the messages
before it stay linked.
-/

namespace ProtoJava.Schema

/-- Positions of the children of message `p`, in ascending order. -/
def childrenOf (parents : List (Option Nat)) (p : Nat) : List Nat :=
  (parents.zipIdx.filter (·.1 = some p)).map (·.2)

/-- The first child whose parent is not among `count` messages. -/
def danglingParent? (count : Nat) (children : List (String × Option Nat)) : Option Error :=
  children.findSome? fun (name, parent) =>
    (parent.filter (count ≤ ·)).map fun p => .danglingParent name p

/-- Links the messages from position `i` on with their children, up to the first error. -/
def linkFrom (parents : List (Option Nat)) (link : Message → List Nat → Except Error Message)
    (i : Nat) : List Message → List Message × Option Error
  | [] => ([], none)
  | m :: r =>
    match link m (childrenOf parents i) with
    | .error e => (m :: r, some e)
    | .ok m =>
      let (r, e) := linkFrom parents link (i + 1) r
      (m :: r, e)

/-- Links messages with the children that name them as their parent, unless a parent is missing. -/
def linkAll (children : List (String × Option Nat))
    (link : Message → List Nat → Except Error Message) (messages : List Message) :
    List Message × Option Error :=
  match danglingParent? messages.length children with
  | some e => (messages, some e)
  | none => linkFrom (children.map (·.2)) link 0 messages

/-- Sets the nested messages, if there are as many as declared. -/
def Message.withNested (m : Message) (nested : List Nat) : Except Error Message :=
  if nested.length = m.declaredNested then .ok { m with nested }
  else .error (.nestingMismatch m.fullName m.declaredNested nested.length)

/-- Sets the nested enums, if there are as many as declared. -/
def Message.withEnums (m : Message) (enums : List Nat) : Except Error Message :=
  if enums.length = m.declaredEnums then .ok { m with enums }
  else .error (.enumNestingMismatch m.fullName m.declaredEnums enums.length)

/-- Links messages with the messages nested in them. -/
def linkNested (messages : List Message) : List Message × Option Error :=
  linkAll (messages.map fun m => (m.fullName, m.parent)) Message.withNested messages

/-- Links messages with the enums nested in them. -/
def linkEnums (messages : List Message) (enums : List EnumType) : List Message × Option Error :=
  linkAll (enums.map fun e => (e.fullName, e.parent)) Message.withEnums messages

/-- The messages of a linking without an error. -/
def linked : List Message × Option Error → Except Error (List Message)
  | (messages, none) => .ok messages
  | (_, some e) => .error e

end ProtoJava.Schema
