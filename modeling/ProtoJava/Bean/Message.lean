import ProtoJava.Bean.Enum
import ProtoJava.Bean.Union

/-! # Messages

A message as a bean class: public fields, constants, accessors of its unions, a text form, and the
classes declared in it.
-/

namespace ProtoJava.Bean

open Java
open Mapping

def fieldSteps (ctx : Context) (f : Schema.File) (m : Member) : Referring (List Step) := do
  let field := m.property.field
  let type ← m.property.type ctx
  let initial ← m.property.initializer ctx m.names.defaultConst
  let trail := match initial with
    | some value => " = " ++ value ++ ";"
    | none => ";"
  return leading f field.path ++ [.line ("// " ++ m.property.describe f.dialect)] ++
    deprecatedMark field.deprecated ++
    [.annotated field.path ("public " ++ type ++ " ") m.names.field trail] ++
    trailing f field.path

def itemSteps (ctx : Context) (f : Schema.File) : Item → Referring (List Step)
  | .field m => return (← fieldSteps ctx f m) ++ [.blank]
  | .union u => return (← unionSteps ctx f u) ++ [.blank]

def numberStep (m : Member) : Step :=
  .line ("public static final int " ++ m.names.numberConst ++ " = " ++
    toString m.property.field.number ++ ";")

/-- The constant for the explicit default of a field. -/
def defaultSteps (ctx : Context) (m : Member) : Referring (List Step) := do
  match m.names.defaultConst, m.property.value? with
  | some constant, some value =>
    match ← m.property.defaultValue ctx with
    | some literal =>
      let type ← value.type ctx false
      return [.line ("public static final " ++ type ++ " " ++ constant ++ " = " ++ literal ++ ";")]
    | none => return []
  | _, _ => return []

/-- Labels and expressions of the text form, where `seen` unions have been shown. -/
def shownParts (s : Shape) (seen : List Nat) : List Member → Referring (List (String × String))
  | [] => return []
  | m :: r =>
    match m.property.kind with
    | .variant oneof _ =>
      match s.unions[oneof]?.join with
      | some u =>
        if seen.contains oneof then shownParts s seen r
        else return (u.names.field, u.names.field) :: (← shownParts s (oneof :: seen) r)
      | none => shownParts s seen r
    | _ => do
      let expression ← shown m.property m.names.field
      return (m.names.field, expression) :: (← shownParts s seen r)

/-- A line of the text form. -/
def shownPartStep (i : Nat) (part : String × String) : Step :=
  let mark := if i = 0 then "" else ", "
  .line ("    + " ++ Text.quoted (mark ++ part.1 ++ "=") ++ " + " ++ part.2)

def toStringSteps (className : String) (parts : List (String × String)) : List Step :=
  let lines :=
    if parts.isEmpty then [.line ("return " ++ Text.quoted (className ++ "\x7b\x7d") ++ ";")]
    else [.line ("return " ++ Text.quoted (className ++ "\x7b"))] ++
      parts.mapIdx shownPartStep ++ [.line "    + \"\x7d\";"]
  [.line "@Override", braced "public String toString()" lines]

/-- What a class holds before the classes declared in it. -/
def memberSteps (ctx : Context) (f : Schema.File) (s : Shape) (extensions : List Extension) :
    Referring (List Step) := do
  let items ← s.items.mapM (itemSteps ctx f)
  let defaults ← s.members.mapM (defaultSteps ctx)
  let accessors ← (s.unions.filterMap id).mapM (unionAccessorSteps ctx)
  let parts ← shownParts s [] s.members
  return trailing f s.message.path ++ items.flatten ++ s.members.map numberStep ++
    defaults.flatten ++ [.blank] ++ extensions.flatMap (extensionSteps f) ++
    s.message.extensionRanges.map rangeStep ++ [.blank] ++ accessors.flatten ++
    toStringSteps s.names.className parts ++ [.blank]

mutual

/-- The class of a message. -/
def messageSteps (ctx : Context) (f : Schema.File) (modifiers : String) :
    Outline → Referring (List Step)
  | .node shape extensions enums nested => do
    let members ← memberSteps ctx f shape extensions
    let classes ← nestedSteps ctx f nested
    return leading f shape.message.path ++ deprecatedMark shape.message.deprecated ++
      declared shape.message.path (modifiers ++ "class ") shape.names.className "" (
        members ++ enums.flatMap (fun e => enumSteps f e ++ [.blank]) ++ classes)

/-- The classes of messages inside another class. -/
def nestedSteps (ctx : Context) (f : Schema.File) : List Outline → Referring (List Step)
  | [] => return []
  | o :: r => do
    let steps ← messageSteps ctx f "public static " o
    let rest ← nestedSteps ctx f r
    return steps ++ [.blank] ++ rest

end

end ProtoJava.Bean
