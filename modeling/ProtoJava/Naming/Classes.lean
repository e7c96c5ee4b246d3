import ProtoJava.Naming.Casing
import ProtoJava.Naming.Registry
import ProtoJava.Options
import ProtoJava.Schema.Basic

/-! # Class scopes

The names of the classes of a file. Each message is a scope of its own for what is nested in it, in
which the names of the message and of everything around it are taken; scopes are filled from the
outside in.
-/

namespace ProtoJava.Naming

open Schema (File Message Field Oneof)

/-- What a class of a file is generated for. -/
inductive ClassRole
  | message (i : Nat)
  | enum (i : Nat)
  | extensions
  | wrapper
  | iface (oneof : Nat)
  | caseEnum (oneof : Nat)
  | variant (field : Nat)
deriving Repr, DecidableEq, Inhabited

/-- Names of classes by what they are generated for. -/
abbrev ClassTable := List (ClassRole × String)

def ClassRole.isType : ClassRole → Bool
  | message _ | enum _ => true
  | _ => false

/-- Requests for messages of a file, map entries apart. -/
def messageRequests (f : File) (is : List Nat) : ClassTable :=
  (is.filter fun i => !(f.message i).mapEntry).map fun i => (.message i, (f.message i).name)

def enumRequests (f : File) (is : List Nat) : ClassTable :=
  is.map fun i => (.enum i, (f.enumType i).name)

/-- Requests for the classes of a file that are in none of its messages. -/
def topRequests (layout : Layout) (f : File) : ClassTable :=
  messageRequests f f.topMessages ++ enumRequests f f.topEnums ++
    (if f.extensions.isEmpty then [] else [(.extensions, camel f.baseName ++ "Extensions")]) ++
    match layout with
    | .type => []
    | .file => [(.wrapper, camel f.baseName ++ "Beans")]

/-- Requests for the types of a union. -/
def unionRequests (o : Oneof) : ClassTable :=
  if o.synthetic then []
  else [(.iface o.index, camel o.name), (.caseEnum o.index, camel o.name ++ "Case")]

/-- The request for the wrapper of a field that is a member of a union. -/
def wrapperRequest (m : Message) (f : Field) : ClassTable :=
  match m.union? f with
  | some o => [(.variant f.index, camel o.name ++ camel f.name)]
  | none => []

/-- Requests for the classes in message `i` of a file. -/
def scopeRequests (f : File) (i : Nat) : ClassTable :=
  let m := f.message i
  messageRequests f m.nested ++ enumRequests f m.enums ++ m.oneofs.flatMap unionRequests ++
    m.fields.flatMap (wrapperRequest m)

/-- The class name of message `i`; a map entry, which gets no class, has its declared name. -/
def messageName (f : File) (types : ClassTable) (i : Nat) : String :=
  (types.lookup (.message i)).getD (f.message i).name

def enumName (f : File) (types : ClassTable) (i : Nat) : String :=
  (types.lookup (.enum i)).getD (f.enumType i).name

/-- The scope of message `i` before anything is nested in it. -/
def scopeRegistry (f : File) (types : ClassTable) (i : Nat) : Registry :=
  Registry.reserving.reserve ((f.enclosing i).map (messageName f types))

/-- The scopes of messages in order, where `types` are the types named before. -/
def scopesFrom (f : File) (types : ClassTable) : List Nat → List ClassTable
  | [] => []
  | i :: r =>
    let scope := ((scopeRegistry f types i).grant (scopeRequests f i)).1
    scope :: scopesFrom f (types ++ scope.filter (·.1.isType)) r

/-- The classes of a file: those outside its messages, and those in each message. -/
structure Classes where
  top : ClassTable
  scopes : List ClassTable

def Classes.of (layout : Layout) (f : File) : Classes :=
  let top := (Registry.reserving.grant (topRequests layout f)).1
  ⟨top, scopesFrom f top (List.range f.messages.length)⟩

/-- The names of all types of a file. -/
def Classes.types (c : Classes) : ClassTable :=
  c.top ++ c.scopes.flatten.filter (·.1.isType)

end ProtoJava.Naming
