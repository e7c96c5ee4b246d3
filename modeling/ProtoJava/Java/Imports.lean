import ProtoJava.Java.ClassName
import ProtoJava.Naming.Reserved

/-! # Imports

The imports of one source file. A class is called by its name within its package where that name
means it, which may take an import; otherwise it is called by its qualified name.
-/

namespace ProtoJava.Java

/-- Packages whose classes are called by their simple names. -/
def libraryPackages : List String := ["java.lang", "java.util", "com.google.protobuf"]

structure Imports where
  /-- The package of the source file. -/
  package : String
  /-- Simple names that mean classes of the package. -/
  own : List String := []
  /-- Names of nested classes of the source file, which hide all others. -/
  nested : List String := []
  /-- Imported classes, by simple name. -/
  imported : List (String × String) := []
deriving Repr, DecidableEq, Inhabited

namespace Imports

/-- Notes that a simple name means a class of the package. -/
def declare (i : Imports) (name : String) : Imports :=
  { i with own := name :: i.own }

/-- Notes that a simple name means a class nested in the source file. -/
def declareNested (i : Imports) (name : String) : Imports :=
  { i with nested := name :: i.nested }

/-- What to call a class of another package, importing it if its simple name is free. -/
def importClass (i : Imports) (c : ClassName) : String × Imports :=
  let full := c.package ++ "." ++ c.outermost
  match i.imported.lookup c.outermost with
  | some existing => (if existing = full then c.relative else c.qualified, i)
  | none =>
    if i.own.contains c.outermost then (c.qualified, i)
    else (c.relative, { i with imported := (c.outermost, full) :: i.imported })

/-- What to call a class of the package of the source file. -/
def ownClass (i : Imports) (c : ClassName) : String × Imports :=
  let full := c.package ++ "." ++ c.outermost
  if (i.imported.lookup c.outermost).any (· ≠ full) then (c.qualified, i)
  else (c.relative, i.declare c.outermost)

/-- What to call a class. -/
def reference (i : Imports) (c : ClassName) : String × Imports :=
  let library := libraryPackages.contains c.package
  if i.nested.contains c.outermost || (Naming.isReserved c.outermost && !library) then
    (c.qualified, i)
  else if c.package = i.package then i.ownClass c
  else if c.package = "java.lang" ∧ c.path.length = 1 ∧ ¬ i.own.contains c.outermost then
    (c.relative, i)
  else i.importClass c

/-- The import statements, sorted by class. -/
def lines (i : Imports) : List String :=
  let sorted := (i.imported.map (·.2)).mergeSort fun a b => decide (a ≤ b)
  sorted.eraseReps.map fun full => "import " ++ full ++ ";"

end Imports

end ProtoJava.Java
