import ProtoJava.Descriptor.Basic
import ProtoJava.Descriptor.Tag
import ProtoJava.Schema.Link

/-! # Schemas of descriptors

Lays out the declarations of a file descriptor flat, in order of their first mention, and links
them. Every declaration gets its path from the file.
-/

namespace ProtoJava.Schema

/-- A message descriptor with its place in the tree of messages. -/
structure Node where
  raw : Descriptor.Message
  parent : Option Nat
  index : Nat
  path : Path
  typeName : List String

/-- Where the children of a node hang. -/
structure Stem where
  parent : Option Nat
  path : Path
  typeName : List String
  tag : Int

def Stem.top : Stem := ⟨none, [], [], Descriptor.Tag.fileMessage⟩

/-- The node of the message at position `index` under a stem. -/
def Stem.node (stem : Stem) (index : Nat) (raw : Descriptor.Message) : Node where
  raw
  parent := stem.parent
  index
  path := stem.path ++ [stem.tag, index]
  typeName := stem.typeName ++ [raw.name]

/-- The stem of the children of a node that stands at position `i`. -/
def Node.stem (node : Node) (i : Nat) : Stem :=
  ⟨some i, node.path, node.typeName, Descriptor.Tag.messageNested⟩

mutual

/-- A message and everything nested in it, where `start` nodes precede it. -/
def flattenMessage (stem : Stem) (start index : Nat) : Descriptor.Message → List Node
  | .mk name fields extensions nested enums ranges oneofs mapEntry deprecated =>
    let node := stem.node index
      ⟨name, fields, extensions, nested, enums, ranges, oneofs, mapEntry, deprecated⟩
    node :: flattenMessages (node.stem start) (start + 1) 0 nested

/-- Sibling messages from position `index` on and everything nested in them. -/
def flattenMessages (stem : Stem) (start index : Nat) : List Descriptor.Message → List Node
  | [] => []
  | m :: r =>
    let nodes := flattenMessage stem start index m
    nodes ++ flattenMessages stem (start + nodes.length) (index + 1) r

end

/-- The schema field at position `index` of a list that `parent` holds under `tag`. -/
def Field.ofDescriptor (parent : Path) (tag : Int) (index : Nat) (raw : Descriptor.Field) :
    Field where
  name := raw.name
  jsonName := raw.jsonName
  number := raw.number
  cardinality := .ofNumber raw.label
  type := .ofNumber raw.type
  typeName := raw.typeName
  oneofIndex := raw.oneofIndex.bind Int.toNat?
  defaultValue := raw.defaultValue
  proto3Optional := raw.proto3Optional
  extendee := raw.extendee
  deprecated := raw.deprecated
  index
  path := parent ++ [tag, index]

def fieldsOf (parent : Path) (tag : Int) (raw : List Descriptor.Field) : List Field :=
  raw.mapIdx fun i f => .ofDescriptor parent tag i f

/-- The oneof at position `index` of a message at `parent` with the given fields. -/
def Oneof.ofName (parent : Path) (fields : List Field) (index : Nat) (name : String) : Oneof :=
  let members := fields.filter (·.oneofIndex = some index)
  { name, index
    path := parent ++ [Descriptor.Tag.messageOneof, index]
    fields := members.map (·.index)
    synthetic := !members.isEmpty && members.all (·.proto3Optional) }

/-- Whether a message has a field that declares `name` as its group. -/
def declaresGroup (raw : Descriptor.Message) (name : String) : Bool :=
  raw.fields.any fun f => FieldType.ofNumber f.type == .group && f.typeName == name

/-- The unlinked message of a node; `nodes` are the nodes of its file. -/
def Message.ofNode (package : String) (nodes : List Node) (node : Node) : Message :=
  let raw := node.raw
  let name := Schema.fullName package node.typeName
  let fields := fieldsOf node.path Descriptor.Tag.messageField raw.fields
  { name := raw.name
    typeName := node.typeName
    fullName := name
    path := node.path
    index := node.index
    parent := node.parent
    fields
    oneofs := raw.oneofs.mapIdx fun i o => .ofName node.path fields i o
    extensions := fieldsOf node.path Descriptor.Tag.messageExtension raw.extensions
    declaredNested := raw.nested.length
    declaredEnums := raw.enums.length
    mapEntry := raw.mapEntry
    group := (node.parent.bind fun p => nodes[p]?).any fun p => declaresGroup p.raw name
    deprecated := raw.deprecated
    extensionRanges := raw.extensionRanges.map fun r => (r.start, r.stop) }

/-- The values of an enum at `parent`, each later one of a number marked as an alias. -/
def enumValues (parent : Path) (raw : List Descriptor.EnumValue) : List EnumValue :=
  raw.mapIdx fun i v =>
    { name := v.name
      number := v.number
      path := parent ++ [Descriptor.Tag.enumValue, (i : Int)]
      deprecated := v.deprecated
      aliasOf := (raw.findIdx? (·.number = v.number)).filter (· < i) }

/-- The enum at position `index` of what holds it: a message, or the file. -/
def EnumType.ofDescriptor (package : String) (parent : Option Nat) (outer : List String)
    (path : Path) (index : Nat) (raw : Descriptor.EnumType) : EnumType :=
  let typeName := outer ++ [raw.name]
  { name := raw.name
    typeName
    fullName := Schema.fullName package typeName
    path
    index
    parent
    values := enumValues path raw.values
    deprecated := raw.deprecated }

/-- The enums of a file: its own, then those of its messages in order. -/
def enumsOf (package : String) (raw : List Descriptor.EnumType) (nodes : List Node) :
    List EnumType :=
  let top := raw.mapIdx fun i e =>
    EnumType.ofDescriptor package none [] [Descriptor.Tag.fileEnum, (i : Int)] i e
  let nested := nodes.mapIdx fun m node => node.raw.enums.mapIdx fun i e =>
    EnumType.ofDescriptor package (some m) node.typeName
      (node.path ++ [Descriptor.Tag.messageEnum, (i : Int)]) i e
  top ++ nested.flatten

/-- The first comments given for each path. -/
def commentsOf : List Descriptor.Location → List (Path × Comments)
  | [] => []
  | l :: r =>
    let later := commentsOf r
    if l.leading.isNone && l.trailing.isNone then later
    else (l.path, ⟨l.leading, l.trailing⟩) :: later.filter (·.1 != l.path)

/-- The file of a descriptor, without what other files add to it. -/
def File.ofDescriptor (id : Nat) (raw : Descriptor.File) : Except Error File := do
  let nodes := flattenMessages .top 0 0 raw.messages
  let unlinked := nodes.map (Message.ofNode raw.package nodes)
  let nested ← linked (linkNested unlinked)
  let enums := enumsOf raw.package raw.enums nodes
  let messages ← linked (linkEnums nested enums)
  return {
    id
    name := raw.name
    package := raw.package
    dialect := .ofName raw.dialect
    java := ⟨raw.javaPackage, raw.javaOuterClassname, raw.javaMultipleFiles⟩
    deprecated := raw.deprecated
    dependencies := raw.dependencies
    messages
    enums
    extensions := fieldsOf [] Descriptor.Tag.fileExtension raw.extensions
    comments := commentsOf raw.locations }

end ProtoJava.Schema
