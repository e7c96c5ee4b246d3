import ProtoJava.Text.Pieces

/-! # Class names

A Java class, by its package and the classes around it.
-/

namespace ProtoJava.Java

/-- A class at the end of a path of enclosing classes, outermost first. -/
structure ClassName where
  package : String
  path : List String
deriving Repr, DecidableEq, Inhabited

namespace ClassName

/-- A class that no other class encloses. -/
def top (package name : String) : ClassName :=
  ⟨package, [name]⟩

def nested (c : ClassName) (name : String) : ClassName :=
  { c with path := c.path ++ [name] }

/-- The name of the class itself. -/
def simple (c : ClassName) : String :=
  c.path.getLastD ""

/-- The name of the outermost class. -/
def outermost (c : ClassName) : String :=
  c.path.headD ""

/-- The name within the package. -/
def relative (c : ClassName) : String :=
  Text.joined "." c.path

/-- The name with the package. -/
def qualified (c : ClassName) : String :=
  if c.package.isEmpty then c.relative else c.package ++ "." ++ c.relative

end ClassName

/-- The path of the source file of a class. -/
def sourcePath (package name : String) : String :=
  if package.isEmpty then name ++ ".java"
  else String.ofList (package.toList.map fun c => if c = '.' then '/' else c) ++ "/" ++ name ++
    ".java"

end ProtoJava.Java
