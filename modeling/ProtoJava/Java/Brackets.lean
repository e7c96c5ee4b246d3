import ProtoJava.Error

/-! # Brackets

Checks that the brackets of a source text match, those in literals and comments apart.
-/

namespace ProtoJava.Java

/-- What the characters at a place of a source text belong to. -/
inductive Region
  | code | lineComment | blockComment | string | character
deriving Repr, DecidableEq, Inhabited

/-- A bracket that is open, and the line it stands on. -/
structure Opening where
  bracket : Char
  line : Nat
deriving Repr, DecidableEq, Inhabited

def isOpening (c : Char) : Bool :=
  c = '(' || c = '[' || c = '\x7b'

def isClosing (c : Char) : Bool :=
  c = ')' || c = ']' || c = '\x7d'

/-- The bracket that a closing one closes. -/
def partner (c : Char) : Char :=
  if c = ')' then '(' else if c = ']' then '[' else '\x7b'

/-- A fault and the line it is reported for. -/
abbrev Located := Nat × Fault

/-- Takes the last opened bracket off, if `c` closes it. -/
def closeBracket (c : Char) (line : Nat) : List Opening → Except Located (List Opening)
  | [] => .error (line, .unexpectedBracket c)
  | o :: rest =>
    if o.bracket = partner c then .ok rest
    else .error (line, .mismatchedBracket c o.bracket o.line)

/-- The line after a character. -/
def lineAfter (c : Char) (line : Nat) : Nat :=
  if c = '\n' then line + 1 else line

/-- The quote that ends a literal. -/
def Region.quote : Region → Char
  | .character => '\x27'
  | _ => '"'

/-- What is wrong at the end of a text. -/
def checkEnd (region : Region) (line : Nat) : List Opening → Except Located Unit
  | o :: _ => .error (o.line, .unclosedBracket o.bracket)
  | [] => if region = .blockComment then .error (line, .unterminatedComment) else .ok ()

/-- Scans a text that starts in `region` on `line`, with brackets open, last one first. -/
def scanBrackets (region : Region) (line : Nat) (open_ : List Opening) :
    List Char → Except Located Unit
  | [] => checkEnd region line open_
  | c :: r =>
    match region with
    | .code =>
      if c = '/' then
        match r with
        | '/' :: r => scanBrackets .lineComment line open_ r
        | '*' :: r => scanBrackets .blockComment line open_ r
        | r => scanBrackets .code line open_ r
      else if c = '"' then scanBrackets .string line open_ r
      else if c = '\x27' then scanBrackets .character line open_ r
      else if isOpening c then scanBrackets .code line (⟨c, line⟩ :: open_) r
      else if isClosing c then
        match closeBracket c line open_ with
        | .ok rest => scanBrackets .code line rest r
        | .error e => .error e
      else scanBrackets .code (lineAfter c line) open_ r
    | .lineComment =>
      scanBrackets (if c = '\n' then .code else .lineComment) (lineAfter c line) open_ r
    | .blockComment =>
      if c = '*' then
        match r with
        | '/' :: r => scanBrackets .code line open_ r
        | r => scanBrackets .blockComment line open_ r
      else scanBrackets .blockComment (lineAfter c line) open_ r
    | .string | .character =>
      if c = '\\' then
        match r with
        | [] => checkEnd region line open_
        | d :: r => scanBrackets region (lineAfter d line) open_ r
      else if c = region.quote then scanBrackets .code line open_ r
      else if c = '\n' then .error (line, .unterminatedLiteral)
      else scanBrackets region line open_ r

/-- Checks the brackets of a whole text. -/
def checkBrackets (content : List Char) : Except Located Unit :=
  scanBrackets .code 1 [] content

end ProtoJava.Java
