import Mathlib.Data.List.Forall2
import ProtoJava.Java.Snippets
import ProtoJava.Java.Verify
import ProtoJava.Proofs.Java.Scanning

/-! # Balance of steps

Steps that do not fail, annotate identifiers only, and open and close brackets in order, have a page
on which the brackets match.
-/

namespace ProtoJava.Java

open Schema (Path)

/-- Text within one line. -/
def Inline (s : String) : Prop :=
  '\n' ∉ s.toList

instance (s : String) : Decidable (Inline s) :=
  inferInstanceAs (Decidable ('\n' ∉ s.toList))

/-- A line that is a comment. -/
def Remark (s : String) : Prop :=
  ∃ cs, s.toList = '/' :: '/' :: cs ∧ '\n' ∉ cs

/-- A line of code that turns the open brackets `a` into `b`, or a comment. -/
inductive Line (text : String) : List Char → List Char → Prop
  | code {a b : List Char} : Turn text a b → Line text a b
  | remark {a : List Char} : Remark text → Line text a a

/-- Steps that turn the open brackets `a` into `b`, line by line. -/
inductive Turns : List Step → List Char → List Char → Prop
  | nil {a : List Char} : Turns [] a a
  | line {text : String} {steps : List Step} {a b c : List Char} :
    Line text a b → Turns steps b c → Turns (.line text :: steps) a c
  | blank {steps : List Step} {a b : List Char} : Turns steps a b → Turns (.blank :: steps) a b
  | comment {text : String} {steps : List Step} {a b : List Char} :
    Turns steps a b → Turns (.comment text :: steps) a b
  | annotated {path : Path} {lead name trail : String} {steps : List Step} {a b c : List Char} :
    isIdentifier name.toList → Turn (lead ++ name ++ trail) a b → Turns steps b c →
      Turns (.annotated path lead name trail :: steps) a c
  | block {header footer : String} {inner steps : List Step} {a b c d e : List Char} :
    Line header a b → Turns inner b c → Line footer c d → Turns steps d e →
      Turns (.block header footer inner :: steps) a e
  | body {footer : String} {inner steps : List Step} {a b c d : List Char} :
    Turns inner a b → Line footer b c → Turns steps c d → Turns (.body footer inner :: steps) a d

/-- Steps that leave the open brackets as they are. -/
def Balanced (steps : List Step) : Prop :=
  ∀ a, Turns steps a a

/-- A character of an identifier. -/
def isIdentifierPart (c : Char) : Bool :=
  isIdentifierStart c || c.isDigit

theorem isIdentifier_iff {cs : List Char} : isIdentifier cs ↔
    (∃ c ∈ cs.head?, isIdentifierStart c) ∧ ∀ c ∈ cs, isIdentifierPart c := by
  cases cs with
  | nil => simp [isIdentifier]
  | cons c cs =>
    simp only [isIdentifier, isIdentifierPart, Bool.and_eq_true, List.all_eq_true, List.head?_cons,
      Option.mem_def, Option.some.injEq, List.forall_mem_cons, exists_eq_left', Bool.or_eq_true]
    constructor
    · rintro ⟨h, hr⟩
      exact ⟨h, Or.inl h, hr⟩
    · rintro ⟨h, -, hr⟩
      exact ⟨h, hr⟩

section Texts

variable {s t : String}

theorem neutral_of_isIdentifier (h : isIdentifier s.toList) : Neutral s :=
  neutral_of_plain fun c hc => isPlain_of ((isIdentifier_iff.mp h).2 c hc) (by decide)

theorem Inline.append (h : Inline s) (h' : Inline t) : Inline (s ++ t) := by
  rw [Inline, String.toList_append, List.mem_append, not_or]
  exact ⟨h, h'⟩

theorem Inline.lit {cs : List Char} (h : '\n' ∉ cs) : Inline (String.ofList cs) := by
  rwa [Inline, String.toList_ofList]

theorem Neutral.inline (h : Neutral s) : Inline s :=
  (h []).newline

theorem Remark.append (h : Remark s) (h' : Inline t) : Remark (s ++ t) := by
  obtain ⟨cs, hs, hn⟩ := h
  refine ⟨cs ++ t.toList, by simp [hs], ?_⟩
  rw [List.mem_append, not_or]
  exact ⟨hn, h'⟩

theorem Remark.lit {cs : List Char} (h : '\n' ∉ cs) : Remark (String.ofList ('/' :: '/' :: cs)) :=
  ⟨cs, String.toList_ofList, h⟩

end Texts

section Steps

variable {steps steps' : List Step} {a b c : List Char}

theorem Turns.append (h : Turns steps a b) (h' : Turns steps' b c) :
    Turns (steps ++ steps') a c := by
  induction h with
  | nil => exact h'
  | line hl _ ih => exact .line hl (ih h')
  | blank _ ih => exact .blank (ih h')
  | comment _ ih => exact .comment (ih h')
  | annotated hi ht _ ih => exact .annotated hi ht (ih h')
  | block hh hs hf _ _ ih => exact .block hh hs hf (ih h')
  | body hs hf _ _ ih => exact .body hs hf (ih h')

namespace Balanced

theorem nil : Balanced [] :=
  fun _ => .nil

theorem append (h : Balanced steps) (h' : Balanced steps') : Balanced (steps ++ steps') :=
  fun a => (h a).append (h' a)

theorem cons {s : Step} (h : Balanced [s]) (h' : Balanced steps) : Balanced (s :: steps) :=
  h.append h'

theorem line {text : String} (h : Neutral text) : Balanced [.line text] :=
  fun _ => .line (.code h.turn) .nil

theorem remark {text : String} (h : Remark text) : Balanced [.line text] :=
  fun _ => .line (.remark h) .nil

theorem blank : Balanced [.blank] :=
  fun _ => .blank .nil

theorem comment (text : String) : Balanced [.comment text] :=
  fun _ => .comment .nil

theorem annotated {path : Path} {lead name trail : String} (hn : isIdentifier name.toList)
    (h : Neutral (lead ++ name ++ trail)) : Balanced [.annotated path lead name trail] :=
  fun _ => .annotated hn h.turn .nil

/-- Balanced steps in braces. -/
theorem braced {head : String} (hh : Neutral head) (h : Balanced steps) :
    Balanced [braced head steps] :=
  fun _ => .block (.code (hh.turn.append (.lit rfl))) (h _) (.code (.lit rfl)) .nil

/-- An annotated declaration with balanced steps in braces. -/
theorem declared {path : Path} {lead name trail : String} (hn : isIdentifier name.toList)
    (hh : Neutral (lead ++ name ++ trail)) (h : Balanced steps) :
    Balanced (declared path lead name trail steps) := by
  intro a
  refine .annotated (b := '\x7b' :: a) hn ?_ (.body (h _) (.code (.lit rfl)) .nil)
  rw [← String.append_assoc]
  exact hh.turn.append (.lit rfl)

theorem flatten {lists : List (List Step)} (h : ∀ steps ∈ lists, Balanced steps) :
    Balanced lists.flatten := by
  induction lists with
  | nil => exact nil
  | cons steps lists ih =>
    rw [List.forall_mem_cons] at h
    exact h.1.append (ih h.2)

theorem flatMap {α : Type} {items : List α} {steps : α → List Step}
    (h : ∀ x ∈ items, Balanced (steps x)) : Balanced (items.flatMap steps) := by
  rw [List.flatMap_def]
  refine flatten fun s hs => ?_
  obtain ⟨x, hx, rfl⟩ := List.mem_map.mp hs
  exact h x hx

/-- A list of steps that are balanced one by one. -/
theorem map {α : Type} {items : List α} {step : α → Step} (h : ∀ x ∈ items, Balanced [step x]) :
    Balanced (items.map step) := by
  rw [List.map_eq_flatMap]
  exact flatMap h

end Balanced

end Steps

end ProtoJava.Java
