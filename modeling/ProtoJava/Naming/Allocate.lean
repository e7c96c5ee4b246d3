import ProtoJava.Naming.Members
import ProtoJava.Naming.PackageName

/-! # Allocation of names

Names for all files of a graph. Packages and converter classes are unique over the whole run, and
the files to generate get theirs first, so they do not depend on the other files.
-/

namespace ProtoJava.Naming

open Schema (File Message Graph)

/-- The bean package a file asks for. -/
def packageRequest (o : Options) (f : File) : String :=
  let suffix := packageSuffix (if f.package.isEmpty then f.baseName else f.package)
  if suffix.isEmpty then o.beanPackage else o.beanPackage ++ "." ++ suffix

/-- Takes the letters `pb` off the start of a longer name. -/
def dropProtobufMark : List Char → List Char
  | p :: b :: c :: r => if p.toLower = 'p' ∧ b.toLower = 'b' then c :: r else p :: b :: c :: r
  | cs => cs

/-- The name a converter class is named after. -/
def converterBase (f : File) : String :=
  match f.java.outerClassname with
  | some outer => outer
  | none =>
    let last := Text.lastPiece '.' f.package.toList
    if last.isEmpty then f.baseName else String.ofList last

/-- The converter class a file asks for. -/
def converterRequest (f : File) : String :=
  camel (String.ofList (dropProtobufMark (converterBase f).toList)) ++ "Converter"

/-- The class that protobuf-java puts around the classes of a file. -/
def protoOuterClass (f : File) : Option String :=
  if f.java.multipleFiles then none
  else some <| f.java.outerClassname.getD <|
    let outer := accessorStem f.baseName
    if (f.messages.any (·.name == outer)) || (f.enums.any (·.name == outer)) then
      outer ++ "OuterClass"
    else outer

/-- The methods of a converter for one message. -/
inductive ConverterRole
  | decode (message : Nat)
  | encode (message : Nat)
  | bytes (message : Nat)
deriving Repr, DecidableEq, Inhabited

/-- Requests for the methods of a converter. -/
def methodRequests (f : File) : List (ConverterRole × String) :=
  f.messages.zipIdx.flatMap fun (m, i) =>
    let stem := "to" ++ camel (String.join m.typeName)
    [(.decode i, stem), (.encode i, stem ++ "Pb"), (.bytes i, stem ++ "Bytes")]

def methodTable (f : File) : List (ConverterRole × String) :=
  ((Registry.reserving.reserve objectMethods).grant (methodRequests f)).1

/-- The names of message `i` of a file. -/
def messageNames (f : File) (classes : Classes) (methods : List (ConverterRole × String))
    (i : Nat) : MessageNames :=
  let m := f.message i
  let scope := classes.scopes.getD i []
  let table := memberTable m
  { className := messageName f classes.types i
    fields := m.fields.map (memberNames m table)
    unions := m.oneofs.map (unionNames m scope table)
    extensions := extensionNames table m.extensions
    converter := {
      decode := nameFor methods (.decode i)
      encode := nameFor methods (.encode i)
      bytes := nameFor methods (.bytes i) } }

/-- The names of enum `i` of a file. -/
def enumNames (f : File) (classes : Classes) (i : Nat) : EnumNames :=
  { className := enumName f classes.types i
    constants := ((Registry.reserving.reserve enumMembers).claimAll
      ((f.enumType i).values.map (·.name))).1 }

/-- The names of a file that has been given its package and its converter class. -/
def fileNames (layout : Layout) (f : File) (package converter : String) : FileNames :=
  let classes := Classes.of layout f
  let methods := methodTable f
  { beanPackage := package
    converterClass := converter
    wrapperClass := classes.top.lookup .wrapper
    extensionsClass := classes.top.lookup .extensions
    extensions := extensionNames (Registry.reserving.grant (extensionRequests f.extensions)).1
      f.extensions
    protoPackage := f.java.package.getD f.package
    protoOuterClass := protoOuterClass f
    messages := (List.range f.messages.length).map (messageNames f classes methods)
    enums := (List.range f.enums.length).map (enumNames f classes) }

/-- The order in which files ask for names: those to generate as listed, then the others. -/
def planningOrder (g : Graph) (generate : List Nat) : List Nat :=
  generate ++ (List.range g.files.length).filter (!generate.contains ·)

/-- The package and the converter class given to each file of an order. -/
def grantedFiles (o : Options) (g : Graph) (order : List Nat) : List (Nat × String × String) :=
  let packages := (Registry.empty.claimAll (order.map fun i => packageRequest o (g.file i))).1
  let converters :=
    (Registry.reserving.claimAll (order.map fun i => converterRequest (g.file i))).1
  order.zip (packages.zip converters)

/-- The names of all files; a file that asks twice keeps what it is given last. -/
def allocate (o : Options) (g : Graph) (generate : List Nat) : Allocation :=
  let granted := (grantedFiles o g (planningOrder g generate)).reverse
  ⟨(List.range g.files.length).map fun i =>
    let (package, converter) := (granted.lookup i).getD ("", "")
    fileNames o.layout (g.file i) package converter⟩

end ProtoJava.Naming
