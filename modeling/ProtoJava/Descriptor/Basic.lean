/-! # Descriptors

Declarations of schema files as the compiler of schema files hands them over. A field that was
left out has its default; where its absence matters, it is optional.
-/

namespace ProtoJava.Descriptor

structure Field where
  name : String := ""
  number : Int := 0
  label : Int := 0
  type : Int := 0
  typeName : String := ""
  extendee : Option String := none
  defaultValue : Option String := none
  oneofIndex : Option Int := none
  jsonName : Option String := none
  proto3Optional : Bool := false
  deprecated : Bool := false
deriving Repr, DecidableEq, Inhabited

structure EnumValue where
  name : String := ""
  number : Int := 0
  deprecated : Bool := false
deriving Repr, DecidableEq, Inhabited

structure EnumType where
  name : String := ""
  values : List EnumValue := []
  deprecated : Bool := false
deriving Repr, DecidableEq, Inhabited

/-- Field numbers from `start` up to but not including `stop`. -/
structure ExtensionRange where
  start : Int := 0
  stop : Int := 0
deriving Repr, DecidableEq, Inhabited

structure Message where
  name : String := ""
  fields : List Field := []
  extensions : List Field := []
  nested : List Message := []
  enums : List EnumType := []
  extensionRanges : List ExtensionRange := []
  oneofs : List String := []
  mapEntry : Bool := false
  deprecated : Bool := false
deriving Inhabited

/-- The comments attached to one place of the source. -/
structure Location where
  path : List Int := []
  leading : Option String := none
  trailing : Option String := none
deriving Repr, DecidableEq, Inhabited

structure File where
  name : String := ""
  package : String := ""
  dialect : String := ""
  dependencies : List String := []
  publicDependencies : List Int := []
  messages : List Message := []
  enums : List EnumType := []
  extensions : List Field := []
  javaPackage : Option String := none
  javaOuterClassname : Option String := none
  javaMultipleFiles : Bool := false
  deprecated : Bool := false
  locations : List Location := []
deriving Inhabited

end ProtoJava.Descriptor
