import ProtoJava.Converter.Value
import ProtoJava.Java.Snippets

/-! # Decoding

The method that makes a bean of a protobuf-java message.
-/

namespace ProtoJava.Converter

open Java
open Mapping

/-- One arm of a switch over the constants of an enum. -/
structure Arm where
  label : String
  statements : List String

/-- A switch whose arms run their statements, then break. -/
def switchStep (selector : String) (arms : List Arm) : Step :=
  braced ("switch (" ++ selector ++ ")") (
    arms.flatMap (fun arm => .line ("case " ++ arm.label ++ ":") ::
      arm.statements.map (fun s => .line ("    " ++ s)) ++ [.line "    break;"]) ++
    [.line "default:", .line "    break;"])

namespace Site

/-- Reads a single value. -/
def decodeSingle (s : Site) (m : Member) (v : Value) : Referring (List Step) := do
  let stem := m.names.accessor
  let expression ← s.decoded ("pb.get" ++ stem ++ s.accessorEnd v ++ "()") v
  let statement := Step.line ("bean." ++ m.names.field ++ " = " ++ expression ++ ";")
  let tracked := m.property.nullable || match v with
    | .message _ => true
    | _ => false
  return if tracked then [braced ("if (pb.has" ++ stem ++ "())") [statement]] else [statement]

/-- Reads a list. -/
def decodeList (s : Site) (m : Member) (v : Value) : Referring (List Step) := do
  let target := "bean." ++ m.names.field
  let stem := m.names.accessor
  match v with
  | .scalar .bytes | .message _ | .enum _ =>
    let element ← s.elementType v
    let item ← s.decoded "item" v
    let list := "pb.get" ++ stem ++ s.accessorEnd v ++ "List()"
    return [braced ("for (" ++ element ++ " item : " ++ list ++ ")") [
      .line (target ++ ".add(" ++ item ++ ");")]]
  | .scalar _ => return [.line (target ++ ".addAll(pb.get" ++ stem ++ "List());")]

/-- Reads a map. -/
def decodeMap (s : Site) (m : Member) (key : Scalar) (v : Value) : Referring (List Step) := do
  let target := "bean." ++ m.names.field
  let stem := m.names.accessor
  match v with
  | .scalar .bytes | .message _ | .enum _ =>
    let entry ← refer (mapClass.nested "Entry")
    let element ← s.elementType v
    let item ← s.decoded "entry.getValue()" v
    return [braced ("for (" ++ entry ++ "<" ++ key.boxed ++ ", " ++ element ++ "> entry : pb.get" ++
        stem ++ s.accessorEnd v ++ "Map().entrySet())") [
      .line (target ++ ".put(entry.getKey(), " ++ item ++ ");")]]
  | .scalar _ => return [.line (target ++ ".putAll(pb.get" ++ stem ++ "Map());")]

/-- Reads a field that is no member of a union. -/
def decodeField (s : Site) (m : Member) : Referring (List Step) :=
  match m.property.kind with
  | .scalar v false => s.decodeSingle m (.scalar v)
  | .message id false => s.decodeSingle m (.message id)
  | .enum id false => s.decodeSingle m (.enum id)
  | .scalar v true => s.decodeList m (.scalar v)
  | .message id true => s.decodeList m (.message id)
  | .enum id true => s.decodeList m (.enum id)
  | .map key v => s.decodeMap m key v
  | .variant _ _ | .extension _ _ _ => return []

/-- Reads a member of a union. -/
def decodeArm (s : Site) (v : Variant) : Referring (Option Arm) := do
  match v.member.property.value? with
  | none => return none
  | some value =>
    let get := "pb.get" ++ v.member.names.accessor ++ s.accessorEnd value ++ "()"
    let expression ← s.decoded get value
    return some ⟨v.names.protoCaseConstant,
      ["bean." ++ v.names.setter ++ "(" ++ expression ++ ");"]⟩

/-- Reads the member of a union that is set. -/
def decodeUnion (s : Site) (u : Union) : Referring (List Step) := do
  let arms ← u.variants.mapM s.decodeArm
  return [switchStep ("pb." ++ u.names.protoCaseGetter ++ "()") (arms.filterMap id)]

def decodeItem (s : Site) : Item → Referring (List Step)
  | .field m => s.decodeField m
  | .union u => s.decodeUnion u

/-- The method that makes a bean of message `id`. -/
def decodeMethod (s : Site) (id : Schema.MessageId) (shape : Shape) : Referring (List Step) := do
  let bean ← s.beanClass id
  let proto ← s.protoClass id
  let items ← shape.items.mapM s.decodeItem
  return declared shape.message.path ("public static " ++ bean ++ " ")
    shape.names.converter.decode ("(" ++ proto ++ " pb)") (
      [braced "if (pb == null)" [.line "return null;"],
        .line (bean ++ " bean = new " ++ bean ++ "();")] ++
      items.flatten ++ [.line "return bean;"])

/-- The method that makes a bean of the bytes of message `id`. -/
def parseMethod (s : Site) (id : Schema.MessageId) : Referring Step := do
  let bean ← s.beanClass id
  let proto ← s.protoClass id
  let parseError ← refer parseErrorClass
  let method := (s.names.message id).converter.decode
  return braced ("public static " ++ bean ++ " " ++ method ++ "(byte[] data)") [
    .block "try \x7b" ("\x7d catch (" ++ parseError ++ " e) \x7b") [
      .line ("return " ++ method ++ "(" ++ proto ++ ".parseFrom(data));")],
    .body "\x7d" [.line "e.printStackTrace();", .line "return null;"]]

end Site

end ProtoJava.Converter
