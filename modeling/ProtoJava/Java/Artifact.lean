import ProtoJava.Java.Code
import ProtoJava.Java.Imports

/-! # Artifacts

Generated source files: the parts every one of them starts with, and the text that follows.
-/

namespace ProtoJava.Java

/-- A source file, generated from the schema file `source`. -/
structure Artifact where
  path : String
  source : String
  content : String
  annotations : List Annotation
deriving Repr, DecidableEq, Inhabited

/-- The line that marks a source file as generated. -/
def generatedBy : String := "// Code generated by protoc-gen-bean. DO NOT EDIT."

def Annotation.shift (a : Annotation) (offset : Nat) : Annotation :=
  { a with start := a.start + offset, stop := a.stop + offset }

/-- A prologue and a page as one file. -/
def Artifact.assemble (path source prologue : String) (page : Page) : Artifact where
  path
  source
  content := prologue ++ page.text
  annotations := page.annotations.map (·.shift (Text.utf8Size prologue.toList))

/-- Text made of whole lines. -/
def unlines (ls : List String) : String :=
  String.join (ls.map (· ++ "\n"))

/-- The package line, the header and the imports of a file. -/
def prologue (package : String) (file : Schema.File) (imports : Imports) : String :=
  unlines <|
    (if package.isEmpty then [] else ["package " ++ package ++ ";", ""]) ++
    [generatedBy, "// source: " ++ file.name] ++
    (if file.deprecated then ["// " ++ file.name ++ " is marked deprecated."] else []) ++
    [""] ++
    (if imports.lines.isEmpty then [] else imports.lines ++ [""])

end ProtoJava.Java
