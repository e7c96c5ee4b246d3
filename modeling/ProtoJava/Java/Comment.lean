import ProtoJava.Text.Blank
import ProtoJava.Text.Pieces

/-! # Comments

Arbitrary text as line comments. The lines hold no line break and no Unicode escape, which would be
decoded in a comment too.
-/

namespace ProtoJava.Java

open Text

/-- The lines of a comment, without the last line feed and without white space at their ends. -/
def commentLines (text : List Char) : List (List Char) :=
  (pieces '\n' ((dropSuffix? ['\n'] text).getD text)).map trimEnd

/-- Disarms what follows a run of backslashes; `odd` tells the parity of the run. -/
def disarmFrom (odd : Bool) : List Char → List Char
  | [] => []
  | c :: r =>
    if c = '\\' then '\\' :: disarmFrom (!odd) r
    else if c = 'u' ∧ odd then '\\' :: 'u' :: disarmFrom false r
    else if c = '\r' then ' ' :: disarmFrom false r
    else c :: disarmFrom false r

/-- Doubles each backslash that would start a Unicode escape and blanks carriage returns. -/
def disarm (line : List Char) : List Char :=
  disarmFrom false line

/-- The text of a comment as lines that are comments. -/
def lineComments (text : String) : List String :=
  (commentLines text.toList).map fun l => "//" ++ String.ofList (disarm l)

end ProtoJava.Java
