import ProtoJava.Schema.Build

/-! # Schema graphs

The files of a request, with the types each one hands on through its public imports.
-/

namespace ProtoJava.Schema

structure Graph where
  files : List File := []
deriving Repr, DecidableEq, Inhabited

namespace Graph

def file (g : Graph) (id : Nat) : File :=
  g.files.getD id {}

def message (g : Graph) (id : MessageId) : Message :=
  (g.file id.file).message id.index

def enumType (g : Graph) (id : EnumId) : EnumType :=
  (g.file id.file).enumType id.index

/-- The first file of a name. -/
def fileNamed? (g : Graph) (name : String) : Option Nat :=
  g.files.findIdx? (·.name = name)

end Graph

/-- The dependency that a public import gives by position. -/
def publicDependency? (raw : Descriptor.File) (i : Int) : Option String :=
  i.toNat?.bind fun n => raw.dependencies[n]?

/-- The types that one public import of a file brings in. -/
def reexported (g : Graph) (raw : Descriptor.File) (i : Int) : Except Error (List TypeRef) :=
  match publicDependency? raw i with
  | none => .error (.unknownDependency raw.name ("#" ++ toString i))
  | some dependency =>
    match g.fileNamed? dependency with
    | none => .error (.unknownDependency raw.name dependency)
    | some id => .ok (g.file id).exported

/-- Adds what a file's public imports bring in. -/
def File.withReexports (g : Graph) (raw : Descriptor.File) (f : File) : Except Error File := do
  let reexports ← raw.publicDependencies.mapM (reexported g raw)
  return { f with reexports := reexports.flatten }

/-- The graph of a request's files. -/
def Graph.build (raws : List Descriptor.File) : Except Error Graph := do
  let files ← raws.zipIdx.mapM fun (raw, id) => File.ofDescriptor id raw
  let files ← (raws.zip files).mapM fun (raw, f) => f.withReexports ⟨files⟩ raw
  return ⟨files⟩

end ProtoJava.Schema
