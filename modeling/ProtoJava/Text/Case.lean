import ProtoJava.Text.CaseContext
import ProtoJava.Text.CaseRuns

/-! # Full case mapping

Lower and upper case of arbitrary text. One character may map to several, and a capital sigma at
the end of a word gets its final form.
-/

namespace ProtoJava.Text

/-- The code point a run maps `n` to, if the run covers it. -/
def CaseRun.map? (run : CaseRun) (n : Nat) : Option Nat :=
  if run.first ≤ n ∧ n ≤ run.last ∧ (n - run.first) % run.step = 0 then
    some (run.image + (n - run.first))
  else none

/-- The image of a character under the first run that covers it. -/
def mapRuns (runs : List CaseRun) (c : Char) : Char :=
  match runs.findSome? (·.map? c.toNat) with
  | some n => Char.ofNat n
  | none => c

/-- Lower case of one character, whatever stands around it. -/
def lowerChar (c : Char) : List Char :=
  if c = '\u0130' then ['i', '\u0307'] else [mapRuns lowerRuns c]

/-- Upper case of one character. -/
def upperChar (c : Char) : List Char :=
  match upperExpansions.find? (·.1 = c.toNat) with
  | some (_, image) => image.map Char.ofNat
  | none => [mapRuns upperRuns c]

/-- Whether the first character that is not looked through is cased. -/
def seesCased (cs : List Char) : Bool :=
  (cs.dropWhile isCaseIgnorable).head?.any isCased

/-- Lower case of a text whose preceding characters are `before`, last one first. -/
def lowerFrom (before : List Char) : List Char → List Char
  | [] => []
  | c :: r =>
    let image :=
      if c = '\u03a3' then [if seesCased before && !seesCased r then '\u03c2' else '\u03c3']
      else lowerChar c
    image ++ lowerFrom (c :: before) r

def lower (cs : List Char) : List Char :=
  lowerFrom [] cs

def upper (cs : List Char) : List Char :=
  cs.flatMap upperChar

def toUpper (s : String) : String :=
  String.ofList (upper s.toList)

end ProtoJava.Text
