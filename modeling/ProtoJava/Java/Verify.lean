import ProtoJava.Java.Artifact
import ProtoJava.Java.Brackets
import ProtoJava.Naming.PackageName

/-! # Verification

Checks that a generated file is sound: its package line agrees with its path, the header is there,
its brackets match, and its annotations cover identifiers.
-/

namespace ProtoJava.Java

open Text

def isIdentifierStart (c : Char) : Bool :=
  c.isAlpha || c = '_' || c = '$'

def isIdentifier : List Char → Bool
  | [] => false
  | c :: r => isIdentifierStart c && r.all fun d => isIdentifierStart d || d.isDigit

/-- The package that a package line names. -/
def linePackage? (line : List Char) : Option (List Char) :=
  ((dropLead? "package ".toList line).bind (dropSuffix? [';'])).filter Naming.isPackageName

/-- Whether a path is that of a source file in the directory of a package. -/
def isSourceOf (package path : List Char) : Bool :=
  let directory := package.map fun c => if c = '.' then '/' else c
  match dropLead? (directory ++ ['/']) path with
  | some name => !name.contains '/' && ".java".toList.isSuffixOf name
  | none => false

/-- The package line and the header. -/
def checkHead (path content : List Char) : Except Located Unit :=
  let first := (lines content).headD []
  match linePackage? first with
  | none => .error (1, .noPackageLine (String.ofList first))
  | some package =>
    if !isSourceOf package path then .error (1, .wrongDirectory (String.ofList package))
    else if !(lines content).contains generatedBy.toList then .error (1, .noHeader)
    else .ok ()

/-- One annotation; positions that are none cover an empty text. -/
def checkCovered (content : List Char) (a : Annotation) : Except Located Unit :=
  let covered := (slice? a.start a.stop content).getD []
  if isIdentifier covered then .ok ()
  else
    let line := ((takeBytes? a.start content).map fun cs => (lines cs).length).getD 0
    .error (line, .notAnIdentifier (String.ofList covered))

/-- Checks a source file. -/
def Artifact.verify (a : Artifact) : Except Error Unit :=
  let content := a.content.toList
  let checked : Except Located Unit := do
    checkHead a.path.toList content
    checkBrackets content
    a.annotations.forM (checkCovered content)
  match checked with
  | .ok () => .ok ()
  | .error (line, fault) => .error (.malformedOutput a.path line fault)

end ProtoJava.Java
