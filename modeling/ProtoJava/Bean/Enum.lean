import ProtoJava.Bean.Outline
import ProtoJava.Java.Snippets
import ProtoJava.Word

/-! # Enums and extensions

Source text of the declarations that name no other class.
-/

namespace ProtoJava.Bean

open Java

/-- The constant at position `i` of an enum. -/
def constantSteps (f : Schema.File) (e : EnumShape) (i : Nat) (v : Schema.EnumValue)
    (constant : String) : List Step :=
  let alias_ := match v.aliasOf with
    | some first => [Step.line ("// Duplicate value: " ++ toString v.number ++ ", alias of " ++
        e.names.constants.getD first "")]
    | none => []
  let mark := if i + 1 = e.type.values.length then ";" else ","
  leading f v.path ++ alias_ ++ deprecatedMark v.deprecated ++
    [.annotated v.path "" constant ("(" ++ toString v.number ++ ")" ++ mark)] ++
    trailing f v.path

/-- The constants of an enum; an enum without any still needs the end of their list. -/
def constantsSteps (f : Schema.File) (e : EnumShape) : List Step :=
  (if e.type.values.isEmpty then [.line ";"] else []) ++
    ((e.type.values.zip e.names.constants).mapIdx fun i (v, constant) =>
      constantSteps f e i v constant).flatten

/-- Numbers with the constants declared first for them. -/
def EnumShape.cases (e : EnumShape) : List (Int × String) :=
  ((e.type.values.zip e.names.constants).filter (·.1.aliasOf.isNone)).map fun (v, constant) =>
    (v.number, constant)

def enumSteps (f : Schema.File) (e : EnumShape) : List Step :=
  let name := e.names.className
  let others := e.names.constants.headD "null"
  leading f e.type.path ++ deprecatedMark e.type.deprecated ++
    declared e.type.path "public enum " name "" (
      trailing f e.type.path ++ constantsSteps f e ++ [.blank] ++ numberMembers name ++
      [.blank, forNumberMethod name e.cases [.line ("default: return " ++ others ++ ";")]])

/-- A full name without the dot it starts with. -/
def plainName (fullName : String) : String :=
  String.ofList (fullName.toList.dropWhile (· = '.'))

def extensionSteps (f : Schema.File) (x : Extension) : List Step :=
  let field := x.property.field
  let target := plainName x.target
  leading f field.path ++ [
    .line ("// extend " ++ target ++ " \x7b " ++ x.property.describe f.dialect ++ " \x7d"),
    .annotated field.path "public static final int " x.names.numberConst
      (" = " ++ toString field.number ++ ";"),
    .line ("public static final String " ++ x.names.extendeeConst ++ " = " ++
      Text.quoted target ++ ";"),
    .blank]

/-- The class of the extensions declared by the file itself. -/
def holderSteps (f : Schema.File) (modifiers name : String) (extensions : List Extension) :
    List Step := [
  .line (modifiers ++ "final class " ++ name ++ " \x7b"),
  .body "\x7d" ([.line ("private " ++ name ++ "() \x7b\x7d"), .blank] ++
    extensions.flatMap (extensionSteps f))]

/-- The highest field number there is. -/
def maxFieldNumber : Int := 536870911

/-- A range of field numbers for extensions. The last number is one below the end in 32 bits. -/
def rangeStep (range : Int × Int) : Step :=
  let (start, stop) := range
  let last := Word.signed 32 (stop - 1)
  if maxFieldNumber ≤ last then .line ("// extensions " ++ toString start ++ " to max;")
  else if last = start then .line ("// extensions " ++ toString start ++ ";")
  else .line ("// extensions " ++ toString start ++ " to " ++ toString last ++ ";")

end ProtoJava.Bean
