import ProtoJava.Java.Code

/-! # Snippets

Steps that occur in many places of generated sources.
-/

namespace ProtoJava.Java

/-- Steps in braces after a head. -/
def braced (head : String) (steps : List Step) : Step :=
  .block (head ++ " \x7b") "\x7d" steps

/-- An annotated declaration with steps in braces. -/
def declared (path : Schema.Path) (lead name trail : String) (steps : List Step) : List Step :=
  [.annotated path lead name (trail ++ " \x7b"), .body "\x7d" steps]

/-- A statement if a reference is set. -/
def guarded (reference statement : String) : Step :=
  braced ("if (" ++ reference ++ " != null)") [.line statement]

def deprecatedMark (deprecated : Bool) : List Step :=
  if deprecated then [.line "@Deprecated"] else []

def commentSteps (text : Option String) : List Step :=
  (text.map Step.comment).toList

/-- The comments before a declaration. -/
def leading (f : Schema.File) (path : Schema.Path) : List Step :=
  commentSteps ((f.commentsAt? path).bind (·.leading))

/-- The comments after the start of a declaration. -/
def trailing (f : Schema.File) (path : Schema.Path) : List Step :=
  commentSteps ((f.commentsAt? path).bind (·.trailing))

/-- The number of an enum constant: its field, constructor and getter. -/
def numberMembers (enumName : String) : List Step := [
  .line "private final int number;",
  .blank,
  braced (enumName ++ "(int number)") [.line "this.number = number;"],
  .blank,
  braced "public int getNumber()" [.line "return number;"]]

/-- The look-up of enum constants by number. -/
def forNumberMethod (enumName : String) (cases : List (Int × String)) (others : List Step) : Step :=
  braced ("public static " ++ enumName ++ " forNumber(int number)") [
    braced "switch (number)" ((cases.map fun (number, constant) =>
      .line ("case " ++ toString number ++ ": return " ++ constant ++ ";")) ++ others)]

end ProtoJava.Java
