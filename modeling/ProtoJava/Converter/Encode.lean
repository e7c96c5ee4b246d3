import ProtoJava.Converter.Decode

/-! # Encoding

The method that makes a protobuf-java message of a bean.
-/

namespace ProtoJava.Converter

open Java
open Mapping

namespace Site

/-- Writes a single scalar. -/
def encodeScalar (s : Site) (m : Member) (v : Scalar) : Referring (List Step) := do
  let source := "bean." ++ m.names.field
  let value ← s.encoded source (.scalar v)
  let statement := "builder.set" ++ m.names.accessor ++ "(" ++ value ++ ");"
  return if m.property.nullable || v.isReference then [guarded source statement]
    else [.line statement]

/-- Writes a single value that can be absent. -/
def encodeReference (s : Site) (m : Member) (v : Value) : Referring (List Step) := do
  let source := "bean." ++ m.names.field
  let value ← s.encoded source v
  return [guarded source
    ("builder.set" ++ m.names.accessor ++ s.accessorEnd v ++ "(" ++ value ++ ");")]

/-- Writes a list. -/
def encodeList (s : Site) (m : Member) (v : Value) : Referring (List Step) := do
  let source := "bean." ++ m.names.field
  let stem := m.names.accessor
  match v with
  | .scalar .bytes | .message _ | .enum _ =>
    let element ← v.type s.toContext true
    let item ← s.encoded "item" v
    return [braced ("if (" ++ source ++ " != null)") [
      braced ("for (" ++ element ++ " item : " ++ source ++ ")") [
        .line ("builder.add" ++ stem ++ s.accessorEnd v ++ "(" ++ item ++ ");")]]]
  | .scalar _ => return [guarded source ("builder.addAll" ++ stem ++ "(" ++ source ++ ");")]

/-- Writes a map. -/
def encodeMap (s : Site) (m : Member) (key : Scalar) (v : Value) : Referring (List Step) := do
  let source := "bean." ++ m.names.field
  let stem := m.names.accessor
  match v with
  | .scalar .bytes | .message _ | .enum _ =>
    let entry ← refer (mapClass.nested "Entry")
    let element ← v.type s.toContext true
    let item ← s.encoded "entry.getValue()" v
    return [braced ("if (" ++ source ++ " != null)") [
      braced ("for (" ++ entry ++ "<" ++ key.boxed ++ ", " ++ element ++ "> entry : " ++ source ++
          ".entrySet())") [
        .line ("builder.put" ++ stem ++ s.accessorEnd v ++ "(entry.getKey(), " ++ item ++ ");")]]]
  | .scalar _ => return [guarded source ("builder.putAll" ++ stem ++ "(" ++ source ++ ");")]

/-- Writes a field that is no member of a union. -/
def encodeField (s : Site) (m : Member) : Referring (List Step) :=
  match m.property.kind with
  | .scalar v false => s.encodeScalar m v
  | .message id false => s.encodeReference m (.message id)
  | .enum id false => s.encodeReference m (.enum id)
  | .scalar v true => s.encodeList m (.scalar v)
  | .message id true => s.encodeList m (.message id)
  | .enum id true => s.encodeList m (.enum id)
  | .map key v => s.encodeMap m key v
  | .variant _ _ | .extension _ _ _ => return []

/-- Whether a wrapper may hold a null value. -/
def canBeNull : Value → Bool
  | .scalar v => v.isReference
  | _ => true

/-- Writes a member of a union. -/
def encodeArm (s : Site) (v : Variant) : Referring (Option Arm) := do
  match v.member.property.value? with
  | none => return none
  | some value =>
    let getter := "bean." ++ v.names.getter ++ "()"
    let encoded ← s.encoded getter value
    let set := "builder.set" ++ v.member.names.accessor ++ s.accessorEnd value ++ "(" ++ encoded ++
      ");"
    return some ⟨v.names.caseConstant,
      if canBeNull value then ["if (" ++ getter ++ " != null) \x7b", "    " ++ set, "\x7d"]
      else [set]⟩

/-- Writes the member of a union that is set. -/
def encodeUnion (s : Site) (u : Union) : Referring (List Step) := do
  let arms ← u.variants.mapM s.encodeArm
  return [switchStep ("bean." ++ u.names.caseGetter ++ "()") (arms.filterMap id)]

def encodeItem (s : Site) : Item → Referring (List Step)
  | .field m => s.encodeField m
  | .union u => s.encodeUnion u

/-- The method that makes message `id` of a bean. -/
def encodeMethod (s : Site) (id : Schema.MessageId) (shape : Shape) : Referring Step := do
  let bean ← s.beanClass id
  let proto ← s.protoClass id
  let items ← shape.items.mapM s.encodeItem
  return braced ("public static " ++ proto ++ " " ++ shape.names.converter.encode ++ "(" ++ bean ++
      " bean)") (
    [braced "if (bean == null)" [.line "return null;"],
      .line (proto ++ ".Builder builder = " ++ proto ++ ".newBuilder();")] ++
    items.flatten ++ [.line "return builder.build();"])

/-- The method that makes the bytes of message `id` of a bean. -/
def bytesMethod (s : Site) (id : Schema.MessageId) : Referring Step := do
  let bean ← s.beanClass id
  let names := (s.names.message id).converter
  return braced ("public static byte[] " ++ names.bytes ++ "(" ++ bean ++ " bean)") [
    .line ("return bean == null ? null : " ++ names.encode ++ "(bean).toByteArray();")]

end Site

end ProtoJava.Converter
