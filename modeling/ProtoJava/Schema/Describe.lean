import ProtoJava.Json
import ProtoJava.Schema.Graph

/-! # Descriptions of schemas

Everything a graph holds, as JSON.
-/

namespace ProtoJava.Schema

open Json

def FieldType.label : FieldType → String
  | double => "Double"
  | float => "Float"
  | int64 => "Int64"
  | uint64 => "Uint64"
  | int32 => "Int32"
  | fixed64 => "Fixed64"
  | fixed32 => "Fixed32"
  | bool => "Bool"
  | string => "String"
  | group => "Group"
  | message => "Message"
  | bytes => "Bytes"
  | uint32 => "Uint32"
  | enum => "Enum"
  | sfixed32 => "Sfixed32"
  | sfixed64 => "Sfixed64"
  | sint32 => "Sint32"
  | sint64 => "Sint64"

def Cardinality.label : Cardinality → String
  | optional => "Optional"
  | required => "Required"
  | repeated => "Repeated"

def Dialect.label : Dialect → String
  | proto2 => "Proto2"
  | proto3 => "Proto3"

def pathJson (path : Path) : Json :=
  ofList int path

def TypeRef.json : TypeRef → Json
  | message id => object [("Message", object [("file", nat id.file), ("index", nat id.index)])]
  | enum id => object [("Enum", object [("file", nat id.file), ("index", nat id.index)])]

def Comments.json (c : Comments) : Json :=
  object [("leading", ofOption string c.leading), ("trailing", ofOption string c.trailing)]

def JavaOptions.json (o : JavaOptions) : Json :=
  object [
    ("package", ofOption string o.package),
    ("outer_classname", ofOption string o.outerClassname),
    ("multiple_files", bool o.multipleFiles)]

def Field.json (f : Field) : Json :=
  object [
    ("name", string f.name),
    ("json_name", ofOption string f.jsonName),
    ("number", int f.number),
    ("cardinality", string f.cardinality.label),
    ("ty", string f.type.label),
    ("type_name", string f.typeName),
    ("oneof_index", ofOption nat f.oneofIndex),
    ("default_value", ofOption string f.defaultValue),
    ("proto3_optional", bool f.proto3Optional),
    ("extendee", ofOption string f.extendee),
    ("deprecated", bool f.deprecated),
    ("index", nat f.index),
    ("path", pathJson f.path)]

def Oneof.json (o : Oneof) : Json :=
  object [
    ("name", string o.name),
    ("index", nat o.index),
    ("path", pathJson o.path),
    ("fields", ofList nat o.fields),
    ("synthetic", bool o.synthetic)]

def Message.json (m : Message) : Json :=
  object [
    ("name", string m.name),
    ("type_name", ofList string m.typeName),
    ("full_name", string m.fullName),
    ("path", pathJson m.path),
    ("index", nat m.index),
    ("parent", ofOption nat m.parent),
    ("fields", ofList Field.json m.fields),
    ("oneofs", ofList Oneof.json m.oneofs),
    ("extensions", ofList Field.json m.extensions),
    ("nested", ofList nat m.nested),
    ("enums", ofList nat m.enums),
    ("declared_nested", nat m.declaredNested),
    ("declared_enums", nat m.declaredEnums),
    ("map_entry", bool m.mapEntry),
    ("group", bool m.group),
    ("deprecated", bool m.deprecated),
    ("extension_ranges", ofList (fun r => array [int r.1, int r.2]) m.extensionRanges)]

def EnumValue.json (v : EnumValue) : Json :=
  object [
    ("name", string v.name),
    ("number", int v.number),
    ("path", pathJson v.path),
    ("deprecated", bool v.deprecated),
    ("alias_of", ofOption nat v.aliasOf)]

def EnumType.json (e : EnumType) : Json :=
  object [
    ("name", string e.name),
    ("type_name", ofList string e.typeName),
    ("full_name", string e.fullName),
    ("path", pathJson e.path),
    ("index", nat e.index),
    ("parent", ofOption nat e.parent),
    ("values", ofList EnumValue.json e.values),
    ("deprecated", bool e.deprecated)]

/-- Comments by the text of their path, in the order of these texts. -/
def commentsJson (comments : List (Path × Comments)) : Json :=
  let keyed := comments.map fun (path, c) => (pathKey path, c.json)
  object (keyed.mergeSort fun a b => decide (a.1 ≤ b.1))

def File.json (f : File) : Json :=
  object [
    ("id", nat f.id),
    ("name", string f.name),
    ("package", string f.package),
    ("syntax", string f.dialect.label),
    ("java", f.java.json),
    ("deprecated", bool f.deprecated),
    ("dependencies", ofList string f.dependencies),
    ("messages", ofList Message.json f.messages),
    ("enums", ofList EnumType.json f.enums),
    ("extensions", ofList Field.json f.extensions),
    ("comments", commentsJson f.comments),
    ("reexports", ofList TypeRef.json f.reexports)]

def Graph.json (g : Graph) : Json :=
  object [("units", ofList File.json g.files)]

end ProtoJava.Schema
