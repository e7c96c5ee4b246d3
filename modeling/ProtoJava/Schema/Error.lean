/-! # Schema errors -/

namespace ProtoJava.Schema

/-- Why descriptors are no schema. -/
inductive Error
  | nestingMismatch (name : String) (declared attached : Nat)
  | enumNestingMismatch (name : String) (declared attached : Nat)
  | danglingParent (name : String) (parent : Nat)
  | unresolvedType (name : String)
  | notAMessage (name : String)
  | notAnEnum (name : String)
  | unknownDependency (file dependency : String)
deriving Repr, DecidableEq, Inhabited

def Error.message : Error → String
  | nestingMismatch name declared attached =>
    "internal error: nesting failure for " ++ name ++ " (declared " ++ toString declared ++
      " nested types, attached " ++ toString attached ++ ")"
  | enumNestingMismatch name declared attached =>
    "internal error: enum nesting failure for " ++ name ++ " (declared " ++ toString declared ++
      " nested enums, attached " ++ toString attached ++ ")"
  | danglingParent name parent =>
    "internal error: " ++ name ++ " refers to missing parent #" ++ toString parent
  | unresolvedType name => "can't find object with type " ++ name
  | notAMessage name => "type " ++ name ++ " is not a message"
  | notAnEnum name => "type " ++ name ++ " is not an enum"
  | unknownDependency file dependency =>
    "file " ++ file ++ " publicly imports unknown file " ++ dependency

end ProtoJava.Schema
