/-! # Reserved names

Words that a generated class, member or package must not be called.
-/

namespace ProtoJava.Naming

/-- Reserved and contextual words of Java. -/
def keywords : List String := [
  "abstract", "assert", "boolean", "break", "byte", "case", "catch", "char", "class", "const",
  "continue", "default", "do", "double", "else", "enum", "extends", "final", "finally", "float",
  "for", "goto", "if", "implements", "import", "instanceof", "int", "interface", "long", "native",
  "new", "package", "private", "protected", "public", "return", "short", "static", "strictfp",
  "super", "switch", "synchronized", "this", "throw", "throws", "transient", "try", "void",
  "volatile", "while", "true", "false", "null", "var", "record", "yield", "sealed", "permits",
  "_"]

/-- Library types that generated sources name without their package. -/
def libraryTypes : List String := [
  "Object", "String", "Integer", "Long", "Float", "Double", "Boolean", "Byte", "Character",
  "Short", "Math", "System", "Class", "Enum", "Override", "Deprecated", "Exception",
  "Iterable", "List", "ArrayList", "Map", "HashMap", "Arrays", "ByteString",
  "InvalidProtocolBufferException"]

/-- Methods that every class has. -/
def objectMethods : List String := [
  "toString", "hashCode", "equals", "getClass", "clone", "finalize", "notify", "notifyAll", "wait"]

/-- Members that every generated enum has. -/
def enumMembers : List String := [
  "number", "getNumber", "forNumber", "values", "valueOf", "ordinal", "name", "compareTo"]

def isReserved (name : String) : Bool :=
  keywords.contains name || libraryTypes.contains name

end ProtoJava.Naming
