import ProtoJava.Schema.Error
import ProtoJava.Text.Visible

/-! # Errors

Why a request is not answered with sources. Each error is a cause; its wording is in `message`.
-/

namespace ProtoJava

/-- What is wrong with a generated source. -/
inductive Fault
  | noPackageLine (found : String)
  | wrongDirectory (package : String)
  | noHeader
  | mismatchedBracket (closing opening : Char) (line : Nat)
  | unexpectedBracket (closing : Char)
  | unclosedBracket (opening : Char)
  | unterminatedLiteral
  | unterminatedComment
  | notAnIdentifier (covered : String)
deriving Repr, DecidableEq, Inhabited

def Fault.message : Fault → String
  | noPackageLine found => "expected a package line, found " ++ Text.visible found
  | wrongDirectory package => "package " ++ package ++ " does not match the output path"
  | noHeader => "missing generated-code header"
  | mismatchedBracket closing opening line =>
    Text.visibleMark closing ++ " closes " ++ Text.visibleMark opening ++ " opened on line " ++
      toString line
  | unexpectedBracket closing => "unexpected " ++ Text.visibleMark closing
  | unclosedBracket opening => "unclosed " ++ Text.visibleMark opening
  | unterminatedLiteral => "unterminated literal"
  | unterminatedComment => "unterminated block comment"
  | notAnIdentifier covered =>
    "annotation covers " ++ Text.visible covered ++ ", not an identifier"

/-- What is wrong with the options of a request. -/
inductive OptionFault
  | noBeanPackage
  | notAPackage (key package : String)
  | unknownLayout (found : String)
deriving Repr, DecidableEq, Inhabited

def OptionFault.message : OptionFault → String
  | noBeanPackage => "invalid vo package, use --bean_out=vopkg=[package.of.vo] to set"
  | notAPackage key package =>
    "invalid " ++ key ++ " " ++ Text.visible package ++ ": not a Java package name"
  | unknownLayout found =>
    "unknown layout " ++ Text.visible found ++ ": want \"type\" or \"file\""

inductive Error
  | unreadable (reason : String)
  | malformedRequest
  | schema (e : Schema.Error)
  | options (fault : OptionFault)
  | nothingToGenerate
  | unknownFile (name : String)
  | unknownEnumDefault (field value : String)
  | unnamedJavaPackage (file : String)
  | malformedMapEntry (name : String)
  | malformedOutput (path : String) (line : Nat) (fault : Fault)
deriving Repr, DecidableEq, Inhabited

def Error.message : Error → String
  | unreadable reason => "I/O error: " ++ reason
  | malformedRequest => "Request decode error"
  | schema e => e.message
  | options fault => fault.message
  | nothingToGenerate => "no files to generate"
  | unknownFile name => "can't find file to generate: " ++ name
  | unknownEnumDefault field value =>
    "unknown enum value " ++ Text.visible value ++ " as default of field " ++ field
  | unnamedJavaPackage file =>
    file ++ " has no package: its protobuf-java classes land in the unnamed package, which " ++
      "converters can't import from; set option java_package"
  | malformedMapEntry name => "malformed map entry " ++ name
  | malformedOutput path line fault =>
    "Verifier error in " ++ path ++ ", line " ++ toString line ++ ": " ++ fault.message

/-- The outcome of a step on a schema as an outcome of the whole. -/
def ofSchema {α : Type} : Except Schema.Error α → Except Error α
  | .ok a => .ok a
  | .error e => .error (.schema e)

end ProtoJava
