import ProtoJava.Proofs.Java.Pages
import ProtoJava.Proofs.Outcome

/-! # Spans of annotated names

Steps may fail anywhere, and whatever else they write, the names that they annotated before the
failure are found at the positions recorded for them, one after the other.
-/

namespace ProtoJava.Java

open Text
open Schema (Path)

section Failures

mutual

def Step.fails : Step → Bool
  | .fail _ => true
  | .block _ _ steps | .body _ steps => anyFails steps
  | .line _ | .blank | .comment _ | .annotated .. => false

def anyFails : List Step → Bool
  | [] => false
  | s :: r => s.fails || anyFails r

end

mutual

/-- The names that a step annotates before it fails, in order. -/
def Step.reached : Step → List Label
  | .annotated path _ name _ => [(path, name)]
  | .block _ _ steps | .body _ steps => reachedAll steps
  | .line _ | .blank | .comment _ | .fail _ => []

/-- The names that steps annotate before the first failure, in order. -/
def reachedAll : List Step → List Label
  | [] => []
  | s :: r => s.reached ++ if s.fails then [] else reachedAll r

end

mutual

/-- Whatever the steps around it, a step annotates names that it holds, in their order. -/
theorem Step.reached_sublist : ∀ s : Step, s.reached.Sublist s.labels
  | .line _ | .blank | .comment _ | .fail _ => List.Sublist.refl _
  | .annotated .. => List.Sublist.refl _
  | .block _ _ steps => reachedAll_sublist steps
  | .body _ steps => reachedAll_sublist steps

theorem reachedAll_sublist : ∀ steps, (reachedAll steps).Sublist (labelsOf steps)
  | [] => List.Sublist.refl _
  | s :: r => by
    rw [reachedAll, labelsOf]
    apply (Step.reached_sublist s).append
    split
    · exact List.nil_sublist _
    · exact reachedAll_sublist r

end

theorem flatMap_reached_sublist (steps : List Step) :
    (steps.flatMap Step.reached).Sublist (labelsOf steps) := by
  induction steps with
  | nil => exact List.Sublist.refl _
  | cons s steps ih =>
    rw [List.flatMap_cons, labelsOf]
    exact s.reached_sublist.append ih

mutual

theorem Page.write_fails (p : Page) : ∀ s : Step, (p.write s).2.isSome = s.fails
  | .line _ | .blank | .comment _ | .annotated .. | .fail _ => rfl
  | .block header _ steps => by
    rw [write_block]
    exact writeAll_fails (p.line header).deeper steps
  | .body _ steps => by
    rw [write_body]
    exact writeAll_fails p.deeper steps

theorem Page.writeAll_fails (p : Page) :
    ∀ steps : List Step, (p.writeAll steps).2.isSome = anyFails steps
  | [] => rfl
  | s :: r => by
    have hs := Page.write_fails p s
    rw [writeAll, anyFails]
    split
    · next q e hq =>
      rw [hq] at hs
      simp [← hs]
    · next q hq =>
      rw [hq] at hs
      simp only [← hs, Option.isSome_none, Bool.false_or]
      exact Page.writeAll_fails q r

end

/-- What comes after a step is written just if the step does not fail. -/
theorem Page.writeAll_cons_eq (p : Page) (s : Step) (steps : List Step) :
    p.writeAll (s :: steps) = if s.fails then p.write s else (p.write s).1.writeAll steps := by
  have hfails := p.write_fails s
  rcases hw : p.write s with ⟨q, _ | e⟩
  · rw [hw] at hfails
    rw [writeAll, hw, ← hfails]
    rfl
  · rw [hw] at hfails
    rw [writeAll, hw, ← hfails]
    rfl

end Failures

/-- The end of a name that stands in a text is within the text. -/
theorem Stands.stop_le {written : List Char} {a : Annotation} {label : Label}
    (h : Stands written a label) : a.stop ≤ utf8Size written := by
  obtain ⟨kept, before, ⟨x, rfl⟩, -, ⟨y, rfl⟩, -, hstart, hstop⟩ := h
  simp only [utf8Size_append, utf8Size_reverse]
  omega

namespace Page

/-- The given names stand on a page as recorded, one after the other. -/
structure Arranged (p : Page) (ls : List Label) : Prop extends p.Shows ls where
  order : p.annotations.Pairwise (·.stop ≤ ·.start)

variable {p : Page} {ls : List Label}

theorem arranged_empty : ({} : Page).Arranged [] :=
  ⟨shows_empty, .nil⟩

theorem Arranged.put (h : p.Arranged ls) (cs : List Char) : (p.put cs).Arranged ls :=
  ⟨h.toShows.put cs, h.order⟩

theorem Arranged.line (h : p.Arranged ls) (text : String) : (p.line text).Arranged ls :=
  line_of_put (P := (Arranged · ls)) Arranged.put h text

theorem Arranged.blank (h : p.Arranged ls) : p.blank.Arranged ls :=
  blank_of_put (P := (Arranged · ls)) Arranged.put h

theorem Arranged.lines (h : p.Arranged ls) (texts : List String) :
    (texts.foldl Page.line p).Arranged ls :=
  lines_of_put (P := (Arranged · ls)) Arranged.put h texts

theorem Arranged.deeper (h : p.Arranged ls) : p.deeper.Arranged ls :=
  ⟨h.toShows.deeper, h.order⟩

theorem Arranged.shallower (h : p.Arranged ls) : p.shallower.Arranged ls :=
  ⟨h.toShows.shallower, h.order⟩

theorem annotations_line (p : Page) (text : String) :
    (p.line text).annotations = p.annotations :=
  line_of_put (P := fun q => q.annotations = p.annotations) (fun h _ => h) rfl text

theorem Arranged.close (h : p.Arranged ls) (footer : String) : (p.close footer).Arranged ls := by
  refine ⟨h.toShows.close footer, ?_⟩
  rw [Page.close, annotations_line]
  exact h.order

/-- A new name starts where the page ended, after all names that stand on it. -/
theorem Arranged.annotated (h : p.Arranged ls) (path : Path) (lead : String) {name trail : String}
    (ha : Anchored name trail) :
    (p.annotated path lead name trail).Arranged (ls ++ [(path, name)]) := by
  refine ⟨h.toShows.annotated path lead ha, ?_⟩
  have hstart : (p.annotated path lead name trail).annotations =
      p.annotations ++ [⟨path, (p.indent.put lead.toList).size,
        ((p.indent.put lead.toList).put name.toList).size⟩] :=
    List.reverse_cons
  rw [hstart, List.pairwise_append]
  refine ⟨h.order, List.pairwise_singleton _ _, ?_⟩
  intro a hmem b hb
  obtain rfl := List.mem_singleton.mp hb
  obtain ⟨label, -, hstands⟩ := forall₂_exists (h.indent.put lead.toList).marks hmem
  have hstop := hstands.stop_le
  rwa [← (h.indent.put lead.toList).size] at hstop

end Page

/-- A name that can be found again: it is not empty and within one line. -/
def Label.Proper (l : Label) : Prop :=
  l.2 ≠ "" ∧ '\n' ∉ l.2.toList

theorem Label.Proper.anchored {path : Path} {name : String} (h : Label.Proper (path, name))
    (trail : String) : Anchored name trail := by
  obtain ⟨hne, hn⟩ := h
  obtain ⟨c, hc⟩ : ∃ c, name.toList.getLast? = some c := by
    cases hl : name.toList.getLast? with
    | some c => exact ⟨c, rfl⟩
    | none => exact absurd (String.toList_eq_nil_iff.mp (List.getLast?_eq_none_iff.mp hl)) hne
  right
  refine ⟨c, hc, ?_⟩
  rintro rfl
  exact hn (List.mem_of_getLast? hc)

namespace Page

mutual

/-- A step adds the names that it annotates before it fails to those on the page. -/
theorem write_arranged {p : Page} {ls : List Label} (h : p.Arranged ls) :
    ∀ s : Step, (∀ l ∈ s.labels, Label.Proper l) → (p.write s).1.Arranged (ls ++ s.reached)
  | .line text, _ => by
    simpa [write, Step.reached] using h.line text
  | .blank, _ => by
    simpa [write, Step.reached] using h.blank
  | .comment text, _ => by
    simpa [write, Step.reached] using h.lines (lineComments text)
  | .fail _, _ => by
    simpa [write, Step.reached] using h
  | .annotated path lead name trail, hn => by
    have hname : Label.Proper (path, name) := hn _ List.mem_cons_self
    simpa [write, Step.reached] using h.annotated path lead (hname.anchored trail)
  | .block header footer steps, hn => by
    rw [write_block, Step.reached]
    exact (writeAll_arranged (h.line header).deeper steps hn).shallower.close footer
  | .body footer steps, hn => by
    rw [write_body, Step.reached]
    exact (writeAll_arranged h.deeper steps hn).shallower.close footer

theorem writeAll_arranged {p : Page} {ls : List Label} (h : p.Arranged ls) :
    ∀ steps : List Step, (∀ l ∈ labelsOf steps, Label.Proper l) →
      (p.writeAll steps).1.Arranged (ls ++ reachedAll steps)
  | [], _ => by simpa [writeAll, reachedAll] using h
  | s :: r, hn => by
    rw [labelsOf, List.forall_mem_append] at hn
    have hs := write_arranged h s hn.1
    rw [writeAll_cons_eq, reachedAll]
    split
    · rwa [List.append_nil]
    · rw [← List.append_assoc]
      exact writeAll_arranged hs r hn.2

end

/-- Where failures are passed over, every step adds its names. -/
theorem writeEach_arranged {p : Page} {ls : List Label} (h : p.Arranged ls) {steps : List Step}
    (hn : ∀ l ∈ labelsOf steps, Label.Proper l) :
    (p.writeEach steps).Arranged (ls ++ steps.flatMap Step.reached) := by
  induction steps generalizing p ls with
  | nil => simpa [writeEach] using h
  | cons s steps ih =>
    rw [labelsOf, List.forall_mem_append] at hn
    have := ih (write_arranged h s hn.1) hn.2
    simpa [writeEach] using this

end Page

section Selection

/-- A byte position between two characters of a text, or at its ends. -/
def IsBoundary (cs : List Char) (n : Nat) : Prop :=
  ∃ before after, cs = before ++ after ∧ n = utf8Size before

/-- An annotation selects the name that it was recorded for. -/
structure Selects (cs : List Char) (a : Annotation) (l : Label) : Prop where
  path : a.path = l.1
  start_lt : a.start < a.stop
  stop_le : a.stop ≤ utf8Size cs
  start_boundary : IsBoundary cs a.start
  stop_boundary : IsBoundary cs a.stop
  name : slice? a.start a.stop cs = some l.2.toList

/-- Annotations select the given names, each after the one before. -/
structure SelectsAll (cs : List Char) (annotations : List Annotation) (ls : List Label) :
    Prop where
  selects : List.Forall₂ (Selects cs) annotations ls
  order : annotations.Pairwise (·.stop ≤ ·.start)

variable {page : Page} {a : Annotation} {l : Label} {ls : List Label}

theorem utf8Size_pos {cs : List Char} (h : cs ≠ []) : 0 < utf8Size cs := by
  obtain ⟨c, r, rfl⟩ := List.exists_cons_of_ne_nil h
  have := c.utf8Size_pos
  rw [utf8Size]
  omega

/-- A name on a page is selected behind a prologue. -/
theorem Stands.selects (h : Stands page.written a l) (hl : Label.Proper l) (prologue : String) :
    Selects (prologue ++ page.text).toList (a.shift (utf8Size prologue.toList)) l := by
  obtain ⟨before, after, htext, hstart, hstop⟩ := h.exists_split prologue
  have hpos : 0 < utf8Size l.2.toList := utf8Size_pos fun hnil =>
    hl.1 (String.toList_eq_nil_iff.mp hnil)
  constructor
  case path =>
    obtain ⟨_, _, -, -, -, hpath, -⟩ := h
    exact hpath
  case start_lt => omega
  case stop_le =>
    rw [htext, utf8Size_append, utf8Size_append, hstop]
    omega
  case start_boundary => exact ⟨before, _, htext, hstart⟩
  case stop_boundary =>
    refine ⟨before ++ l.2.toList, after, by rw [htext, List.append_assoc], ?_⟩
    rw [utf8Size_append, hstop]
  case name => exact h.slice prologue

/-- The names on a page are selected in every source file made of the page. -/
theorem Page.Arranged.selectsAll (h : page.Arranged ls) (hl : ∀ l ∈ ls, Label.Proper l)
    (prologue : String) :
    SelectsAll (prologue ++ page.text).toList
      (page.annotations.map (·.shift (utf8Size prologue.toList))) ls := by
  constructor
  · rw [List.forall₂_map_left_iff]
    have hmarks := ((List.forall₂_and_left _ _).mpr ⟨hl, h.marks.flip⟩).flip
    apply hmarks.imp
    rintro a l ⟨hproper, hstands⟩
    exact Stands.selects hstands hproper prologue
  · rw [List.pairwise_map]
    apply h.order.imp
    intro a b hab
    unfold Annotation.shift
    dsimp only
    omega

/-- The given names are selected on a page, and in every source file made of it. -/
structure Page.Finds (page : Page) (ls : List Label) : Prop where
  text : SelectsAll page.text.toList page.annotations ls
  artifact : ∀ path source prologue,
    SelectsAll (Artifact.assemble path source prologue page).content.toList
      (Artifact.assemble path source prologue page).annotations ls

theorem Page.Arranged.finds (h : page.Arranged ls) (hl : ∀ l ∈ ls, Label.Proper l) :
    page.Finds ls := by
  refine ⟨?_, fun _ _ prologue => h.selectsAll hl prologue⟩
  have hshift : page.annotations.map (·.shift (utf8Size "".toList)) = page.annotations :=
    List.map_id _
  have hnone := h.selectsAll hl ""
  rwa [hshift, String.empty_append] at hnone

/-- Names that are not empty and within one line are found where they were recorded, in the order
of the steps, whichever steps fail. -/
theorem annotations_found {steps : List Step} (hn : ∀ l ∈ labelsOf steps, Label.Proper l) :
    (({} : Page).writeAll steps).1.Finds (reachedAll steps) ∧
      (({} : Page).writeEach steps).Finds (steps.flatMap Step.reached) := by
  have hall := Page.writeAll_arranged Page.arranged_empty steps hn
  have heach := Page.writeEach_arranged Page.arranged_empty hn
  rw [List.nil_append] at hall heach
  constructor
  · exact hall.finds fun l hl => hn l ((reachedAll_sublist steps).subset hl)
  · exact heach.finds fun l hl => hn l ((flatMap_reached_sublist steps).subset hl)

/-- Blocks that fail are closed over the blank lines before them, in a file of longer characters. -/
theorem annotations_found_failing :
    let e : Error := .schema (.unresolvedType "T")
    let steps : List Step :=
      [.annotated [4, 0] "class " "Größe" " \x7b",
        .body "\x7d" [.comment "naïve\n",
          .block "\x7b" "\x7d" [.annotated [4, 0, 2, 0] "int " "n" "\n\n", .fail e],
          .annotated [] "" "lost" ""],
        .blank, .annotated [5, 0] "enum " "E" ""]
    let page := ({} : Page).writeEach steps
    (∀ l ∈ labelsOf steps, Label.Proper l) ∧
      steps.flatMap Step.reached = [([4, 0], "Größe"), ([4, 0, 2, 0], "n"), ([5, 0], "E")] ∧
      (Artifact.assemble "p" "s" "// ü\n" page).annotations =
        [⟨[4, 0], 12, 19⟩, ⟨[4, 0, 2, 0], 53, 54⟩, ⟨[5, 0], 69, 70⟩] ∧
      page.Finds (steps.flatMap Step.reached) ∧
      (({} : Page).writeAll steps).1.Finds [([4, 0], "Größe"), ([4, 0, 2, 0], "n")] := by
  intro e steps page
  have hn : ∀ l ∈ labelsOf steps, Label.Proper l := by
    unfold Label.Proper
    decide +kernel
  have hfound := annotations_found hn
  exact ⟨hn, by decide +kernel, by decide +kernel, hfound.2, hfound.1⟩

end Selection

end ProtoJava.Java
