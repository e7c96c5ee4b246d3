import ProtoJava.Bean.File
import ProtoJava.Converter.File
import ProtoJava.Descriptor.Decode
import ProtoJava.Java.Verify
import ProtoJava.Naming.Allocate

/-! # Compilation

From a request to the source files it asks for: all of them, or the first error.
-/

namespace ProtoJava

open Descriptor (Request)
open Java (Artifact)
open Mapping (Context)
open Schema (Graph Index)

/-- The files of the given names. -/
def filesNamed (g : Graph) (names : List String) : Except Error (List Nat) :=
  names.mapM fun name =>
    match g.fileNamed? name with
    | some id => .ok id
    | none => .error (.unknownFile name)

/-- The files that sources are to be generated for. -/
def filesToGenerate (g : Graph) (names : List String) : Except Error (List Nat) :=
  if names.isEmpty then .error .nothingToGenerate else filesNamed g names

/-- What the generation of sources for some files of a graph works on. -/
def Mapping.Context.prepare (o : Options) (g : Graph) (generate : List Nat) : Context where
  graph := g
  index := g.index
  options := o
  names := Naming.allocate o g generate

/-- The file whose protobuf-java classes a converter names for a field, if it names any. An open
enum is converted by number. -/
def namedFile? (ctx : Context) (f : Schema.File) (field : Schema.Field) :
    Except Error (Option Nat) :=
  if !field.type.isNamed then .ok none
  else (ofSchema (ctx.index.resolve field.typeName)).map fun
    | .message id => some id.file
    | .enum id => if f.dialect = .proto3 then none else some id.file

/-- The files whose protobuf-java classes the converter of a file names; without messages there is
no converter. -/
def namedFiles (ctx : Context) (id : Nat) : Except Error (List Nat) := do
  let f := ctx.graph.file id
  if f.messages.all (·.mapEntry) then return []
  let named ← (f.messages.flatMap (·.fields)).mapM (namedFile? ctx f)
  return id :: named.filterMap fun n => n

/-- Checks that none of the classes a converter names is in the unnamed package. -/
def checkJavaPackages (ctx : Context) (id : Nat) : Except Error Unit := do
  let named ← namedFiles ctx id
  match named.find? fun n => (ctx.names.file n).protoPackage.isEmpty with
  | some n => throw (.unnamedJavaPackage (ctx.graph.file n).name)
  | none => return

/-- The source files that a request asks for. -/
def compile (r : Request) : Except Error (List Artifact) := do
  let options ← Options.read r.parameter
  let graph ← ofSchema (Graph.build r.files)
  let generate ← filesToGenerate graph r.generate
  ofSchema (graph.checkReferences graph.index)
  let ctx := Context.prepare options graph generate
  generate.forM (checkJavaPackages ctx)
  let beans ← generate.mapM (Bean.beans ctx)
  let converters ← generate.mapM (Converter.converter ctx)
  let artifacts := beans.flatten ++ converters.filterMap id
  artifacts.forM (·.verify)
  return artifacts

end ProtoJava
