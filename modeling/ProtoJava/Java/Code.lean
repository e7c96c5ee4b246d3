import ProtoJava.Error
import ProtoJava.Java.Comment
import ProtoJava.Schema.Basic
import ProtoJava.Text.Utf8

/-! # Code

Source text as a tree of steps, and the page they are written on. A page indents nested steps,
keeps blank lines single, and records where annotated names stand.
-/

namespace ProtoJava.Java

open Text

/-- A name in a source text, by its byte positions, and the declaration it was generated from. -/
structure Annotation where
  path : Schema.Path
  start : Nat
  stop : Nat
deriving Repr, DecidableEq, Inhabited

inductive Step
  | line (text : String)
  /-- A separating empty line. -/
  | blank
  /-- Arbitrary text as line comments. -/
  | comment (text : String)
  /-- A line that holds a name generated from the declaration at `path`. -/
  | annotated (path : Schema.Path) (lead name trail : String)
  /-- Steps one level deeper, between two lines. -/
  | block (header footer : String) (steps : List Step)
  /-- Steps one level deeper under the line before, and a line after them. -/
  | body (footer : String) (steps : List Step)
  /-- Ends the steps around it. -/
  | fail (e : Error)
deriving Inhabited

/-- What has been written so far. -/
structure Page where
  /-- The text, last character first. -/
  written : List Char := []
  /-- Its length in bytes. -/
  size : Nat := 0
  depth : Nat := 0
  /-- The annotations, last one first. -/
  marks : List Annotation := []
deriving Repr, DecidableEq, Inhabited

namespace Page

def text (p : Page) : String :=
  String.ofList p.written.reverse

def annotations (p : Page) : List Annotation :=
  p.marks.reverse

def put (p : Page) (cs : List Char) : Page :=
  { p with written := cs.reverse ++ p.written, size := p.size + utf8Size cs }

def indent (p : Page) : Page :=
  p.put (List.replicate (4 * p.depth) ' ')

def line (p : Page) (text : String) : Page :=
  if text.isEmpty then p.put ['\n'] else (p.indent.put text.toList).put ['\n']

/-- An empty line, unless the page is empty, or one or an opening brace is right before it. -/
def blank (p : Page) : Page :=
  match p.written with
  | [] | '\n' :: '\n' :: _ | '\n' :: '\x7b' :: _ => p
  | _ => p.put ['\n']

def annotated (p : Page) (path : Schema.Path) (lead name trail : String) : Page :=
  let p := p.indent.put lead.toList
  let q := p.put name.toList
  let q := { q with marks := ⟨path, p.size, q.size⟩ :: q.marks }
  (q.put trail.toList).put ['\n']

/-- Removes line feeds from the end of a text, last character first, while two of them end it. -/
def dropBlankLines : List Char → Nat → List Char × Nat
  | '\n' :: '\n' :: r, size => dropBlankLines ('\n' :: r) (size - 1)
  | cs, size => (cs, size)

/-- Ends a nested part with a line; blank lines before it go. -/
def close (p : Page) (footer : String) : Page :=
  let (written, size) := dropBlankLines p.written p.size
  line { p with written, size } footer

def deeper (p : Page) : Page :=
  { p with depth := p.depth + 1 }

def shallower (p : Page) : Page :=
  { p with depth := p.depth - 1 }

mutual

/-- Writes a step. A failure inside a nested part still closes that part. -/
def write (p : Page) : Step → Page × Option Error
  | .line text => (p.line text, none)
  | .blank => (p.blank, none)
  | .comment text => ((lineComments text).foldl line p, none)
  | .annotated path lead name trail => (p.annotated path lead name trail, none)
  | .block header footer steps =>
    let (q, e) := writeAll (p.line header).deeper steps
    (q.shallower.close footer, e)
  | .body footer steps =>
    let (q, e) := writeAll p.deeper steps
    (q.shallower.close footer, e)
  | .fail e => (p, some e)

/-- Writes steps up to the first failure. -/
def writeAll (p : Page) : List Step → Page × Option Error
  | [] => (p, none)
  | s :: r =>
    match write p s with
    | (q, some e) => (q, some e)
    | (q, none) => writeAll q r

end

/-- Writes steps one after the other, whether or not they fail. -/
def writeEach (p : Page) (steps : List Step) : Page :=
  steps.foldl (fun p s => (p.write s).1) p

end Page

end ProtoJava.Java
