/-! # Spellings of an identifier

Pascal case for classes, camel case for members, upper snake case for constants, and the stem that
protobuf-java puts into the names of its accessors. Only ASCII letters have a case here.
-/

namespace ProtoJava.Naming

/-- Whether a text starts with an ASCII lower-case letter. -/
def startsLower : List Char → Bool
  | [] => false
  | c :: _ => c.isLower

/-- Pascal case of what is left of an identifier; `inWord` says that a lower-case letter here
continues a word. An underscore goes only before a lower-case letter, and digits end a word. -/
def camelFrom (inWord : Bool) : List Char → List Char
  | [] => []
  | c :: r =>
    if inWord && c.isLower then c :: camelFrom true r
    else if c = '_' && startsLower r then camelFrom false r
    else if c.isDigit then c :: camelFrom false r
    else c.toUpper :: camelFrom true r

/-- Pascal case; a leading underscore becomes a capital. -/
def camelChars : List Char → List Char
  | '_' :: r => 'X' :: camelFrom false r
  | cs => camelFrom false cs

/-- Pascal case with the first letter lowered. -/
def lowerCamelChars (cs : List Char) : List Char :=
  match camelChars cs with
  | [] => []
  | c :: r => c.toLower :: r

/-- Upper snake case of what follows `before`: a capital after a small letter or a digit starts a
word. -/
def snakeFrom (before : Option Char) : List Char → List Char
  | [] => []
  | c :: r =>
    let image :=
      if c.isUpper && before.any (fun p => p.isLower || p.isDigit) then ['_', c] else [c.toUpper]
    image ++ snakeFrom (some c) r

/-- Upper snake case; a text without small letters is taken to be one already. -/
def upperSnakeChars (cs : List Char) : List Char :=
  if cs.any Char.isLower then snakeFrom none cs else cs

/-- The letters and digits of a name, where `capital` says that a small letter is raised here. -/
def stemFrom (capital : Bool) : List Char → List Char
  | [] => []
  | c :: r =>
    if c.isLower then (if capital then c.toUpper else c) :: stemFrom false r
    else if c.isUpper then c :: stemFrom false r
    else if c.isDigit then c :: stemFrom true r
    else stemFrom true r

/-- The accessor stem; `Class` is avoided, since `getClass` is taken. -/
def accessorStemChars (cs : List Char) : List Char :=
  let stem := stemFrom true cs
  if stem = ['C', 'l', 'a', 's', 's'] then stem ++ ['_'] else stem

def camel (s : String) : String :=
  String.ofList (camelChars s.toList)

def lowerCamel (s : String) : String :=
  String.ofList (lowerCamelChars s.toList)

def upperSnake (s : String) : String :=
  String.ofList (upperSnakeChars s.toList)

def accessorStem (s : String) : String :=
  String.ofList (accessorStemChars s.toList)

end ProtoJava.Naming
