import ProtoJava.Java.ClassName
import ProtoJava.Schema.Graph

/-! # Name plans

All names that generated sources use, decided before any of them is written, and the classes that
follow from them.
-/

namespace ProtoJava.Naming

open Java (ClassName)
open Schema (MessageId EnumId Graph)

structure ExtensionNames where
  numberConst : String
  extendeeConst : String
deriving Repr, DecidableEq, Inhabited

structure MemberNames where
  /-- The bean field; for a member of a union, the field of its wrapper. -/
  field : String
  numberConst : String
  defaultConst : Option String
  /-- The stem of the accessors in protobuf-java. -/
  accessor : String
deriving Repr, DecidableEq, Inhabited

structure VariantNames where
  fieldIndex : Nat
  wrapper : String
  caseConstant : String
  setter : String
  getter : String
  protoCaseConstant : String
deriving Repr, DecidableEq, Inhabited

structure UnionNames where
  field : String
  iface : String
  caseEnum : String
  caseGetter : String
  notSet : String
  protoCaseGetter : String
  protoNotSet : String
  variants : List VariantNames
deriving Repr, DecidableEq, Inhabited

structure ConverterNames where
  decode : String
  encode : String
  bytes : String
deriving Repr, DecidableEq, Inhabited

structure MessageNames where
  className : String
  fields : List MemberNames
  /-- An entry for each oneof; a synthetic one has no names. -/
  unions : List (Option UnionNames)
  extensions : List ExtensionNames
  converter : ConverterNames
deriving Repr, DecidableEq, Inhabited

structure EnumNames where
  className : String
  constants : List String
deriving Repr, DecidableEq, Inhabited

structure FileNames where
  beanPackage : String
  converterClass : String
  /-- The class around all others of the file, in the layout that has one. -/
  wrapperClass : Option String
  /-- The class of the constants for extensions declared by the file itself. -/
  extensionsClass : Option String
  extensions : List ExtensionNames
  protoPackage : String
  protoOuterClass : Option String
  messages : List MessageNames
  enums : List EnumNames
deriving Repr, DecidableEq, Inhabited

/-- The names of all files of a graph. -/
structure Allocation where
  files : List FileNames
deriving Repr, DecidableEq, Inhabited

namespace Allocation

def file (a : Allocation) (id : Nat) : FileNames :=
  a.files.getD id default

def message (a : Allocation) (id : MessageId) : MessageNames :=
  (a.file id.file).messages.getD id.index default

def enumNames (a : Allocation) (id : EnumId) : EnumNames :=
  (a.file id.file).enums.getD id.index default

/-- The class names around a type with the given parent, outermost first. -/
def around (a : Allocation) (g : Graph) (file : Nat) (parent : Option Nat) : List String :=
  let chain := match parent with
    | some p => (g.file file).enclosing p
    | none => []
  (a.file file).wrapperClass.toList ++
    (chain.reverse.map fun i => (a.message ⟨file, i⟩).className)

/-- The bean class of a message. -/
def messageClass (a : Allocation) (g : Graph) (id : MessageId) : ClassName :=
  ⟨(a.file id.file).beanPackage,
    a.around g id.file (g.message id).parent ++ [(a.message id).className]⟩

/-- The bean class of an enum. -/
def enumClass (a : Allocation) (g : Graph) (id : EnumId) : ClassName :=
  ⟨(a.file id.file).beanPackage,
    a.around g id.file (g.enumType id).parent ++ [(a.enumNames id).className]⟩

/-- The protobuf-java class of a type of a file. -/
def protoClass (a : Allocation) (file : Nat) (typeName : List String) : ClassName :=
  ⟨(a.file file).protoPackage, (a.file file).protoOuterClass.toList ++ typeName⟩

def protoMessageClass (a : Allocation) (g : Graph) (id : MessageId) : ClassName :=
  a.protoClass id.file (g.message id).typeName

def protoEnumClass (a : Allocation) (g : Graph) (id : EnumId) : ClassName :=
  a.protoClass id.file (g.enumType id).typeName

/-- The class that converts the messages of a file. -/
def converterClass (a : Allocation) (package : String) (file : Nat) : ClassName :=
  .top package (a.file file).converterClass

end Allocation

end ProtoJava.Naming
