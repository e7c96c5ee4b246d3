import ProtoJava.Bean.Outline
import ProtoJava.Java.Snippets

/-! # Unions

A oneof as a tagged union: an enum of its cases, an interface, a wrapper class for each member, and
the accessors of the class that holds it.
-/

namespace ProtoJava.Bean

open Java
open Mapping

/-- An expression that shows a value within a text. -/
def shown (p : Property) (expression : String) : Referring String :=
  match p.kind with
  | .scalar .string false | .variant _ (.scalar .string) =>
    return "\"\x27\" + " ++ expression ++ " + \"\x27\""
  | .scalar .bytes false | .variant _ (.scalar .bytes) =>
    return (← refer arraysClass) ++ ".toString(" ++ expression ++ ")"
  | _ => return expression

/-- The number of a variant. -/
def variantNumber (v : Variant) : Int :=
  v.member.property.field.number

/-- The constants of the case enum. -/
def caseConstantSteps (u : Union) : List Step :=
  (u.variants.map fun v =>
    .line (v.names.caseConstant ++ "(" ++ toString (variantNumber v) ++ "),")) ++
    [.line (u.names.notSet ++ "(0);")]

/-- The enum that tells which member is set. -/
def caseEnumStep (u : Union) : Step :=
  let name := u.names.caseEnum
  braced ("public enum " ++ name) (
    caseConstantSteps u ++ [.blank] ++ numberMembers name ++ [
      .blank,
      forNumberMethod name (u.variants.map fun v => (variantNumber v, v.names.caseConstant)) [
        .line ("case 0: return " ++ u.names.notSet ++ ";"),
        .line "default: return null;"]])

def ifaceStep (u : Union) : Step :=
  braced ("public interface " ++ u.names.iface) [
    .line (u.names.caseEnum ++ " " ++ u.names.caseGetter ++ "();")]

/-- The class that holds one member, whose value has the given type. -/
def wrapperStep (u : Union) (v : Variant) (type shownPayload : String) : Step :=
  let payload := v.member.names.field
  let name := v.names.wrapper
  braced ("public static final class " ++ name ++ " implements " ++ u.names.iface) [
    .annotated v.member.property.field.path ("public final " ++ type ++ " ") payload ";",
    .blank,
    braced ("public " ++ name ++ "(" ++ type ++ " " ++ payload ++ ")") [
      .line ("this." ++ payload ++ " = " ++ payload ++ ";")],
    .blank,
    .line "@Override",
    braced ("public " ++ u.names.caseEnum ++ " " ++ u.names.caseGetter ++ "()") [
      .line ("return " ++ u.names.caseEnum ++ "." ++ v.names.caseConstant ++ ";")],
    .blank,
    .line "@Override",
    braced "public String toString()" [
      .line ("return " ++ Text.quoted (name ++ "\x7b" ++ payload ++ "=") ++ " + " ++
        shownPayload ++ " + \"\x7d\";")]]

/-- A member of a union with its documentation. -/
def variantSteps (ctx : Context) (f : Schema.File) (u : Union) (v : Variant) :
    Referring (List Step) := do
  let p := v.member.property
  let type ← p.type ctx
  let shownPayload ← shown p v.member.names.field
  return leading f p.field.path ++ [.line ("// " ++ p.describe f.dialect)] ++
    deprecatedMark p.field.deprecated ++ [wrapperStep u v type shownPayload, .blank]

/-- The types of a union, and the field that holds it. -/
def unionSteps (ctx : Context) (f : Schema.File) (u : Union) : Referring (List Step) := do
  let variants ← u.variants.mapM (variantSteps ctx f u)
  return leading f u.oneof.path ++ [caseEnumStep u, .blank, ifaceStep u, .blank] ++
    variants.flatten ++
    [.annotated u.oneof.path ("public " ++ u.names.iface ++ " ") u.names.field ";"]

/-- The setter and the getter of a member. -/
def accessorSteps (ctx : Context) (u : Union) (v : Variant) : Referring (List Step) := do
  let payload := v.member.names.field
  let union := u.names.field
  let wrapper := v.names.wrapper
  let type ← v.member.property.type ctx
  let fallback ← v.member.property.fallback ctx v.member.names.defaultConst
  return [
    braced ("public void " ++ v.names.setter ++ "(" ++ type ++ " " ++ payload ++ ")") [
      .line ("this." ++ union ++ " = new " ++ wrapper ++ "(" ++ payload ++ ");")],
    .blank,
    braced ("public " ++ type ++ " " ++ v.names.getter ++ "()") [
      .line ("return " ++ union ++ " instanceof " ++ wrapper ++ " ? ((" ++ wrapper ++ ") " ++
        union ++ ")." ++ payload ++ " : " ++ fallback ++ ";")],
    .blank]

/-- The accessors of a union in the class that holds it. -/
def unionAccessorSteps (ctx : Context) (u : Union) : Referring (List Step) := do
  let accessors ← u.variants.mapM (accessorSteps ctx u)
  let union := u.names.field
  return declared u.oneof.path ("public " ++ u.names.caseEnum ++ " ") u.names.caseGetter "()" [
      .line ("return " ++ union ++ " == null ? " ++ u.names.caseEnum ++ "." ++ u.names.notSet ++
        " : " ++ union ++ "." ++ u.names.caseGetter ++ "();")] ++
    [.blank] ++ accessors.flatten

end ProtoJava.Bean
