import Mathlib.Data.List.Forall2
import Mathlib.Data.List.Infix
import ProtoJava.Java.Artifact

/-! # Annotated names on a page

The names that steps annotate are found on the finished page at the positions recorded for them,
and at the same positions after the prologue in the finished source file.
-/

namespace ProtoJava.Java

open Text
open Schema (Path)

/-- A declaration and the name generated from it. -/
abbrev Label := Path × String

mutual

/-- The names that a step annotates, in order. -/
def Step.labels : Step → List Label
  | .annotated path _ name _ => [(path, name)]
  | .block _ _ steps | .body _ steps => labelsOf steps
  | .line _ | .blank | .comment _ | .fail _ => []

/-- The names that steps annotate, in order. -/
def labelsOf : List Step → List Label
  | [] => []
  | s :: r => s.labels ++ labelsOf r

end

/-- Line feeds at the end of a line reach back at most to the end of the annotated name. -/
def Anchored (name trail : String) : Prop :=
  (∃ c ∈ trail.toList, c ≠ '\n') ∨ ∃ c ∈ name.toList.getLast?, c ≠ '\n'

mutual

/-- A step that does not fail and annotates anchored names only. -/
def Step.Sound : Step → Prop
  | .annotated _ _ name trail => Anchored name trail
  | .block _ _ steps | .body _ steps => SoundAll steps
  | .fail _ => False
  | .line _ | .blank | .comment _ => True

def SoundAll : List Step → Prop
  | [] => True
  | s :: r => s.Sound ∧ SoundAll r

end

section Lists

theorem labelsOf_append (a b : List Step) : labelsOf (a ++ b) = labelsOf a ++ labelsOf b := by
  induction a with
  | nil => rfl
  | cons s a ih => simp [labelsOf, ih]

theorem soundAll_iff {steps : List Step} : SoundAll steps ↔ ∀ s ∈ steps, s.Sound := by
  induction steps with
  | nil => simp [SoundAll]
  | cons s steps ih => simp [SoundAll, ih]

theorem soundAll_append {a b : List Step} : SoundAll (a ++ b) ↔ SoundAll a ∧ SoundAll b := by
  simp only [soundAll_iff, List.forall_mem_append]

/-- Steps that do not fail and annotate the given names. -/
structure Marked (steps : List Step) (ls : List Label) : Prop where
  sound : SoundAll steps
  labels : labelsOf steps = ls

namespace Marked

variable {steps steps' : List Step} {ls ls' : List Label}

theorem nil : Marked [] [] :=
  ⟨trivial, rfl⟩

theorem of_eq (h : Marked steps ls) (hl : ls = ls') : Marked steps ls' :=
  hl ▸ h

theorem append (h : Marked steps ls) (h' : Marked steps' ls') :
    Marked (steps ++ steps') (ls ++ ls') :=
  ⟨soundAll_append.mpr ⟨h.sound, h'.sound⟩, by rw [labelsOf_append, h.labels, h'.labels]⟩

theorem cons {s : Step} (h : Marked [s] ls) (h' : Marked steps ls') :
    Marked (s :: steps) (ls ++ ls') :=
  h.append h'

theorem line (text : String) : Marked [.line text] [] :=
  ⟨⟨trivial, trivial⟩, rfl⟩

theorem blank : Marked [.blank] [] :=
  ⟨⟨trivial, trivial⟩, rfl⟩

theorem annotated (path : Path) (lead : String) {name trail : String} (h : Anchored name trail) :
    Marked [.annotated path lead name trail] [(path, name)] :=
  ⟨⟨h, trivial⟩, rfl⟩

theorem block (header footer : String) (h : Marked steps ls) :
    Marked [.block header footer steps] ls :=
  ⟨⟨h.sound, trivial⟩, by simp [labelsOf, Step.labels, h.labels]⟩

theorem body (footer : String) (h : Marked steps ls) : Marked [.body footer steps] ls :=
  ⟨⟨h.sound, trivial⟩, by simp [labelsOf, Step.labels, h.labels]⟩

/-- Lists of steps that annotate the names of one item each. -/
theorem flatten {α : Type} {label : α → List Label} {items : List α} {lists : List (List Step)}
    (h : List.Forall₂ (fun a steps => Marked steps (label a)) items lists) :
    Marked lists.flatten (items.flatMap label) := by
  induction h with
  | nil => exact nil
  | cons ha _ ih => exact ha.append ih

theorem flatten_nil {α : Type} {items : List α} {lists : List (List Step)}
    (h : List.Forall₂ (fun _ steps => Marked steps []) items lists) : Marked lists.flatten [] :=
  (flatten h).of_eq (List.flatMap_eq_nil_iff.mpr fun _ _ => rfl)

theorem flatMap {α : Type} {label : α → List Label} {items : List α} {steps : α → List Step}
    (h : ∀ a ∈ items, Marked (steps a) (label a)) :
    Marked (items.flatMap steps) (items.flatMap label) := by
  rw [List.flatMap_def]
  refine flatten ?_
  rw [List.forall₂_map_right_iff, List.forall₂_same]
  exact h

/-- Steps that are all lines annotate nothing. -/
theorem lines (h : ∀ s ∈ steps, ∃ text, s = .line text) : Marked steps [] := by
  induction steps with
  | nil => exact nil
  | cons s steps ih =>
    obtain ⟨text, rfl⟩ := h s List.mem_cons_self
    exact (line text).cons (ih fun s hs => h s (List.mem_cons_of_mem _ hs))

end Marked

end Lists

/-- A name stands in a text, last character first, and line feeds dropped off the text's end do not
reach it. -/
def Stands (written : List Char) (a : Annotation) (label : Label) : Prop :=
  ∃ kept before, kept <:+ written ∧ kept.head? ≠ some '\n' ∧
    (label.2.toList.reverse ++ before) <:+ kept ∧ a.path = label.1 ∧
    a.start = utf8Size before ∧ a.stop = a.start + utf8Size label.2.toList

theorem Stands.append {written : List Char} {a : Annotation} {label : Label}
    (h : Stands written a label) (more : List Char) : Stands (more ++ written) a label := by
  obtain ⟨kept, before, hk, hh, hn, ha⟩ := h
  exact ⟨kept, before, hk.trans (List.suffix_append _ _), hh, hn, ha⟩

theorem utf8Size_reverse (cs : List Char) : utf8Size cs.reverse = utf8Size cs := by
  induction cs with
  | nil => rfl
  | cons c cs ih =>
    rw [List.reverse_cons, utf8Size_append, ih]
    simp [utf8Size, Nat.add_comm]

/-- A text before the end of which there is no blank line stays. -/
theorem suffix_dropBlankLines {kept cs : List Char} {size : Nat} (h : kept <:+ cs)
    (hk : ∀ r, kept ≠ '\n' :: '\n' :: r) : kept <:+ (Page.dropBlankLines cs size).1 := by
  induction cs, size using Page.dropBlankLines.induct with
  | case1 size r ih =>
    rw [Page.dropBlankLines]
    rcases List.suffix_cons_iff.mp h with rfl | h
    · exact absurd rfl (hk _)
    · exact ih h
  | case2 cs size hn => rwa [Page.dropBlankLines]; exact hn

theorem size_dropBlankLines {cs : List Char} {size : Nat} (h : size = utf8Size cs) :
    (Page.dropBlankLines cs size).2 = utf8Size (Page.dropBlankLines cs size).1 := by
  induction cs, size using Page.dropBlankLines.induct with
  | case1 size r ih =>
    rw [Page.dropBlankLines]
    refine ih ?_
    have : ('\n' : Char).utf8Size = 1 := rfl
    simp only [utf8Size, this] at h ⊢
    omega
  | case2 cs size hn => rwa [Page.dropBlankLines]; exact hn

namespace Page

theorem writeAll_cons (p : Page) {s : Step} (h : (p.write s).2 = none) (steps : List Step) :
    p.writeAll (s :: steps) = (p.write s).1.writeAll steps := by
  obtain ⟨q, hq⟩ : ∃ q, p.write s = (q, none) := ⟨_, Prod.ext rfl h⟩
  rw [writeAll, hq]

theorem write_block (p : Page) (header footer : String) (steps : List Step) :
    p.write (.block header footer steps) =
      (((p.line header).deeper.writeAll steps).1.shallower.close footer,
        ((p.line header).deeper.writeAll steps).2) := by
  rw [write]

theorem write_body (p : Page) (footer : String) (steps : List Step) :
    p.write (.body footer steps) =
      ((p.deeper.writeAll steps).1.shallower.close footer, (p.deeper.writeAll steps).2) := by
  rw [write]

mutual

theorem write_succeeds (p : Page) : ∀ s : Step, s.Sound → (p.write s).2 = none
  | .line _, _ | .blank, _ | .comment _, _ | .annotated .., _ => rfl
  | .block header _ steps, hs => by
    rw [write_block]
    exact writeAll_succeeds (p.line header).deeper steps hs
  | .body _ steps, hs => by
    rw [write_body]
    exact writeAll_succeeds p.deeper steps hs
  | .fail _, hs => hs.elim

theorem writeAll_succeeds (p : Page) :
    ∀ steps : List Step, SoundAll steps → (p.writeAll steps).2 = none
  | [], _ => rfl
  | s :: r, hs => by
    rw [writeAll_cons p (write_succeeds p s hs.1)]
    exact writeAll_succeeds _ r hs.2

end

/-- Steps that do not fail are written the same with and without regard to failures. -/
theorem writeEach_eq {p : Page} {steps : List Step} (h : (p.writeAll steps).2 = none) :
    p.writeEach steps = (p.writeAll steps).1 := by
  induction steps generalizing p with
  | nil => rfl
  | cons s steps ih =>
    have hs : (p.write s).2 = none := by
      rw [writeAll] at h
      split at h
      · simp at h
      · next hq => rw [hq]
    rw [writeAll_cons p hs] at h ⊢
    exact ih h

section Puts

variable {P : Page → Prop} (hput : ∀ {p : Page}, P p → ∀ cs, P (p.put cs)) {p : Page}

include hput

/-- What further characters keep, lines keep. -/
theorem line_of_put (h : P p) (text : String) : P (p.line text) := by
  unfold Page.line
  split
  · exact hput h _
  · exact hput (hput (hput h _) _) _

theorem blank_of_put (h : P p) : P p.blank := by
  unfold Page.blank
  split
  · exact h
  · exact h
  · exact h
  · exact hput h _

theorem lines_of_put (h : P p) (texts : List String) : P (texts.foldl Page.line p) := by
  induction texts generalizing p with
  | nil => exact h
  | cons text texts ih => exact ih (line_of_put hput h text)

end Puts

/-- The size of a page is that of its text, and the given names stand on it as recorded. -/
structure Shows (p : Page) (ls : List Label) : Prop where
  size : p.size = utf8Size p.written
  marks : List.Forall₂ (Stands p.written) p.annotations ls

variable {p : Page} {ls : List Label}

theorem shows_empty : ({} : Page).Shows [] :=
  ⟨rfl, .nil⟩

theorem Shows.put (h : p.Shows ls) (cs : List Char) : (p.put cs).Shows ls := by
  refine ⟨?_, h.marks.imp fun _ _ h => h.append _⟩
  simp only [Page.put, h.size, utf8Size_append, utf8Size_reverse]
  omega

theorem Shows.indent (h : p.Shows ls) : p.indent.Shows ls :=
  h.put _

theorem Shows.line (h : p.Shows ls) (text : String) : (p.line text).Shows ls :=
  line_of_put (P := (Shows · ls)) Shows.put h text

theorem Shows.blank (h : p.Shows ls) : p.blank.Shows ls :=
  blank_of_put (P := (Shows · ls)) Shows.put h

theorem Shows.lines (h : p.Shows ls) (texts : List String) : (texts.foldl Page.line p).Shows ls :=
  lines_of_put (P := (Shows · ls)) Shows.put h texts

theorem Shows.deeper (h : p.Shows ls) : p.deeper.Shows ls :=
  ⟨h.size, h.marks⟩

theorem Shows.shallower (h : p.Shows ls) : p.shallower.Shows ls :=
  ⟨h.size, h.marks⟩

/-- Blank lines at the end of a page hold no part of an annotated name. -/
theorem Shows.close (h : p.Shows ls) (footer : String) : (p.close footer).Shows ls := by
  have hd : Shows { p with
      written := (dropBlankLines p.written p.size).1
      size := (dropBlankLines p.written p.size).2 } ls := by
    refine ⟨size_dropBlankLines h.size, h.marks.imp ?_⟩
    rintro a label ⟨kept, before, hk, hh, hn, ha⟩
    have hkept : ∀ r, kept ≠ '\n' :: '\n' :: r := by
      rintro r rfl
      exact hh rfl
    exact ⟨kept, before, suffix_dropBlankLines hk hkept, hh, hn, ha⟩
  exact hd.line footer

/-- A name that is written before an anchor stands where it was written. -/
theorem stands_of_anchored (path : Path) {name trail : String} (ha : Anchored name trail)
    (before : List Char) {start : Nat} (hs : start = utf8Size before) :
    Stands (trail.toList.reverse ++ (name.toList.reverse ++ before))
      ⟨path, start, start + utf8Size name.toList⟩ (path, name) := by
  rcases ha with ⟨c, hc, hne⟩ | ⟨c, hc, hne⟩
  · obtain ⟨x, y, hxy⟩ := List.append_of_mem (List.mem_reverse.mpr hc)
    refine ⟨c :: y ++ (name.toList.reverse ++ before), before, ⟨x, by simp [hxy]⟩, ?_,
      List.suffix_append _ _, rfl, hs, rfl⟩
    simpa using hne
  · refine ⟨name.toList.reverse ++ before, before, List.suffix_append _ _, ?_,
      List.suffix_refl _, rfl, hs, rfl⟩
    rw [List.head?_append, List.head?_reverse, hc]
    simpa using hne

theorem Shows.annotated (h : p.Shows ls) (path : Path) (lead : String) {name trail : String}
    (ha : Anchored name trail) :
    (p.annotated path lead name trail).Shows (ls ++ [(path, name)]) := by
  have hl := h.indent.put lead.toList
  have hold := (hl.put name.toList).put trail.toList
  have hmark := stands_of_anchored path ha _ hl.size
  let page : Page := { ((p.indent.put lead.toList).put name.toList).put trail.toList with
    marks := ⟨path, (p.indent.put lead.toList).size,
      (p.indent.put lead.toList).size + utf8Size name.toList⟩ :: p.marks }
  have hpage : page.Shows (ls ++ [(path, name)]) := by
    refine ⟨hold.size, ?_⟩
    rw [Page.annotations, List.reverse_cons]
    exact List.rel_append hold.marks (.cons hmark .nil)
  exact hpage.put ['\n']

mutual

/-- Steps that do not fail add the names that they annotate to those on the page. -/
theorem write_shows {p : Page} {ls : List Label} (h : p.Shows ls) :
    ∀ s : Step, s.Sound → (p.write s).1.Shows (ls ++ s.labels)
  | .line text, _ => by
    simpa [write, Step.labels] using h.line text
  | .blank, _ => by
    simpa [write, Step.labels] using h.blank
  | .comment text, _ => by
    simpa [write, Step.labels] using h.lines (lineComments text)
  | .annotated path lead name trail, hs => by
    simpa [write, Step.labels] using h.annotated path lead hs
  | .block header footer steps, hs => by
    rw [write_block, Step.labels]
    exact (writeAll_shows (h.line header).deeper steps hs).shallower.close footer
  | .body footer steps, hs => by
    rw [write_body, Step.labels]
    exact (writeAll_shows h.deeper steps hs).shallower.close footer
  | .fail _, hs => hs.elim

theorem writeAll_shows {p : Page} {ls : List Label} (h : p.Shows ls) :
    ∀ steps : List Step, SoundAll steps → (p.writeAll steps).1.Shows (ls ++ labelsOf steps)
  | [], _ => by simpa [writeAll, labelsOf] using h
  | s :: r, hs => by
    have hw := writeAll_shows (write_shows h s hs.1) r hs.2
    rw [writeAll_cons p (write_succeeds p s hs.1), labelsOf]
    simpa using hw

end

theorem writeEach_shows (h : p.Shows ls) {steps : List Step} (hs : SoundAll steps) :
    (p.writeEach steps).Shows (ls ++ labelsOf steps) := by
  induction steps generalizing p ls with
  | nil => simpa [writeEach, labelsOf] using h
  | cons s steps ih =>
    have := ih (write_shows h s hs.1) hs.2
    simpa [writeEach, labelsOf] using this

end Page

/-- The names that the annotations of a source file select, where they select any text. -/
def Artifact.labels (a : Artifact) : List (Path × Option String) :=
  a.annotations.map fun x =>
    (x.path, (slice? x.start x.stop a.content.toList).map String.ofList)

/-- A name on a page stands in the source file with a prologue before the page. -/
theorem Stands.exists_split {page : Page} {a : Annotation} {label : Label}
    (h : Stands page.written a label) (prologue : String) :
    ∃ before after, (prologue ++ page.text).toList = before ++ (label.2.toList ++ after) ∧
      (a.shift (utf8Size prologue.toList)).start = utf8Size before ∧
      (a.shift (utf8Size prologue.toList)).stop = utf8Size before + utf8Size label.2.toList := by
  obtain ⟨kept, before, ⟨x, hx⟩, -, ⟨y, hy⟩, -, hstart, hstop⟩ := h
  have hbefore : utf8Size (prologue.toList ++ before.reverse) =
      a.start + utf8Size prologue.toList := by
    rw [utf8Size_append, utf8Size_reverse, hstart, Nat.add_comm]
  refine ⟨prologue.toList ++ before.reverse, y.reverse ++ x.reverse, ?_, hbefore.symm, ?_⟩
  · rw [String.toList_append, Page.text, String.toList_ofList, ← hx, ← hy]
    simp
  · unfold Annotation.shift
    dsimp only
    rw [hbefore, hstop]
    omega

/-- A name on a page is selected in the source file with a prologue before the page. -/
theorem Stands.slice {page : Page} {a : Annotation} {label : Label}
    (h : Stands page.written a label) (prologue : String) :
    slice? (a.shift (utf8Size prologue.toList)).start (a.shift (utf8Size prologue.toList)).stop
      (prologue ++ page.text).toList = some label.2.toList := by
  obtain ⟨before, after, htext, hstart, hstop⟩ := h.exists_split prologue
  rw [htext, hstart, hstop]
  exact slice?_middle ..

/-- A source file of steps that do not fail has the names that the steps annotate. -/
theorem Artifact.assemble_labels (path source prologue : String) {steps : List Step}
    (hs : SoundAll steps) :
    (Artifact.assemble path source prologue (({} : Page).writeEach steps)).labels =
      (labelsOf steps).map fun l => (l.1, some l.2) := by
  have h := (Page.writeEach_shows Page.shows_empty hs).marks
  rw [List.nil_append] at h
  simp only [Artifact.labels, Artifact.assemble, List.map_map]
  rw [← List.forall₂_eq_eq_eq, List.forall₂_map_left_iff, List.forall₂_map_right_iff]
  refine h.imp fun a label ha => ?_
  rw [Function.comp_apply, ha.slice prologue]
  obtain ⟨-, -, -, -, -, hpath, -⟩ := ha
  simp [hpath, Annotation.shift]

end ProtoJava.Java
