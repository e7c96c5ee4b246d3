import ProtoJava.Schema.Graph

/-! # Names of types

The types of a graph by their full name. Of two types with one name the first counts, where a
file's messages precede its enums.
-/

namespace ProtoJava.Schema

structure Index where
  entries : List (String × TypeRef) := []
deriving Repr, DecidableEq, Inhabited

/-- The named types of a file. -/
def File.named (f : File) : List (String × TypeRef) :=
  (f.messages.mapIdx fun i m => (m.fullName, .message ⟨f.id, i⟩)) ++
    f.enums.mapIdx fun i e => (e.fullName, .enum ⟨f.id, i⟩)

def Graph.index (g : Graph) : Index :=
  ⟨g.files.flatMap File.named⟩

namespace Index

def resolve (ix : Index) (name : String) : Except Error TypeRef :=
  match ix.entries.lookup name with
  | some ref => .ok ref
  | none => .error (.unresolvedType name)

def resolveMessage (ix : Index) (name : String) : Except Error MessageId := do
  match ← ix.resolve name with
  | .message id => return id
  | .enum _ => throw (.notAMessage name)

def resolveEnum (ix : Index) (name : String) : Except Error EnumId := do
  match ← ix.resolve name with
  | .enum id => return id
  | .message _ => throw (.notAnEnum name)

/-- Resolves the type a field names and the message it extends. -/
def checkField (ix : Index) (f : Field) : Except Error Unit := do
  if f.type.isMessage then
    let _ ← ix.resolveMessage f.typeName
  else if f.type.isNamed then
    let _ ← ix.resolveEnum f.typeName
  match f.extendee with
  | some extendee => let _ ← ix.resolveMessage extendee
  | none => return

end Index

/-- The fields and extensions of a file: those of its messages in order, then its own. -/
def File.declaredFields (f : File) : List Field :=
  (f.messages.flatMap fun m => m.fields ++ m.extensions) ++ f.extensions

/-- Resolves every reference of a graph, up to the first that fails. -/
def Graph.checkReferences (g : Graph) (ix : Index) : Except Error Unit :=
  (g.files.flatMap File.declaredFields).forM ix.checkField

end ProtoJava.Schema
