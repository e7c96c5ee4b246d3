import ProtoJava.Naming.Registry
import ProtoJava.Text.Case
import ProtoJava.Text.Pieces

/-! # Package names

Dotted lower-case package names, and how an arbitrary dotted name becomes one.
-/

namespace ProtoJava.Naming

open Text

def isSegmentStart (c : Char) : Bool :=
  c.isLower || c = '_'

def isSegmentPart (c : Char) : Bool :=
  isSegmentStart c || c.isDigit

/-- A letter or underscore, followed by letters, digits and underscores, all in lower case. -/
def isSegment : List Char → Bool
  | [] => false
  | c :: r => isSegmentStart c && r.all isSegmentPart

/-- One or more segments with dots between them. -/
def isPackageName (cs : List Char) : Bool :=
  (pieces '.' cs).all isSegment

/-- Replaces whatever cannot stand in a segment. -/
def segmentChar (c : Char) : Char :=
  if c.isAlphanum || c = '_' then c else '_'

/-- A segment spelled after a text: lower case, not starting with a digit and no keyword. -/
def segmentOf (cs : List Char) : String :=
  let spelled := (lower cs).map segmentChar
  let spelled := if spelled.head?.any Char.isDigit then '_' :: spelled else spelled
  let name := String.ofList spelled
  if keywords.contains name then Registry.reserving.answer name else name

/-- The package name spelled after a dotted text, one segment for each nonempty piece. -/
def packageSuffix (s : String) : String :=
  joined "." (((pieces '.' s.toList).filter (· ≠ [])).map segmentOf)

end ProtoJava.Naming
