import ProtoJava.Compile
import ProtoJava.Schema.Describe
import ProtoJava.Wire.Writer
import ProtoJava.Word

/-! # Plugin

Encoded requests and responses. An error travels in the response, in place of the files.
-/

namespace ProtoJava

open Descriptor (Request)
open Java (Artifact)
open Schema (Graph)

/-- A name in a generated file and the declaration in `source` it was generated from. -/
structure ResponseAnnotation where
  path : List Int
  source : String
  start : Option Nat
  stop : Option Nat
deriving Repr, DecidableEq, Inhabited

structure ResponseFile where
  name : String
  content : String
  /-- Present if annotations have been asked for. -/
  annotations : Option (List ResponseAnnotation)
deriving Repr, DecidableEq, Inhabited

structure Response where
  error : Option String
  features : Nat
  files : List ResponseFile
deriving Repr, DecidableEq, Inhabited

/-- The feature of telling absent fields from fields with a zero value. -/
def supportedFeatures : Nat := 1

/-- A position as far as it fits a signed number of 32 bits. -/
def position? (n : Nat) : Option Nat :=
  if n < Word.count 31 then some n else none

def ResponseFile.ofArtifact (annotate : Bool) (a : Artifact) : ResponseFile where
  name := a.path
  content := a.content
  annotations := if annotate then
      some (a.annotations.map fun x => ⟨x.path, a.source, position? x.start, position? x.stop⟩)
    else none

def Response.ofError (e : Error) : Response :=
  ⟨some e.message, supportedFeatures, []⟩

/-- Whether a text of options asks for annotations. -/
def asksForAnnotations (parameter : String) : Bool :=
  match Options.read parameter with
  | .ok o => o.annotateCode
  | .error _ => false

/-- Answers a request. -/
def respond (r : Request) : Response :=
  match compile r with
  | .ok artifacts =>
    ⟨none, supportedFeatures, artifacts.map (.ofArtifact (asksForAnnotations r.parameter))⟩
  | .error e => .ofError e

/-- Decodes a request. -/
def decodeRequest (bytes : Wire.Bytes) : Except Error Request :=
  match Request.decode? bytes with
  | some r => .ok r
  | none => .error .malformedRequest

namespace Response

open Wire

def annotationBytes (a : ResponseAnnotation) : Bytes :=
  packedField 1 a.path ++ textField 2 a.source ++ optionalField (varintField 3) a.start ++
    optionalField (varintField 4) a.stop

def infoBytes (annotations : List ResponseAnnotation) : Bytes :=
  annotations.flatMap fun a => bytesField 1 (annotationBytes a)

def fileBytes (f : ResponseFile) : Bytes :=
  textField 1 f.name ++ textField 15 f.content ++
    optionalField (fun annotations => bytesField 16 (infoBytes annotations)) f.annotations

/-- The encoded response. -/
def encode (r : Response) : Bytes :=
  optionalField (textField 1) r.error ++ varintField 2 r.features ++
    r.files.flatMap fun f => bytesField 15 (fileBytes f)

end Response

/-- Answers an encoded request with an encoded response. -/
def respondToBytes (bytes : Wire.Bytes) : Except Error Wire.Bytes :=
  (decodeRequest bytes).map fun r => (respond r).encode

/-- Describes the schema graph of an encoded request. -/
def describeBytes (bytes : Wire.Bytes) : Except Error String := do
  let r ← decodeRequest bytes
  let g ← ofSchema (Graph.build r.files)
  return g.json.pretty

end ProtoJava
