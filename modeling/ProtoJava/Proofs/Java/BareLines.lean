import ProtoJava.Proofs.Java.CodeLines
import ProtoJava.Proofs.Java.Remarks

/-! # Bare lines

The lines of a text without the spaces that indent them and without the blank ones. On a page these
are the lines its steps were given, in order, with the lines of comments among them.
-/

namespace ProtoJava.Java

/-- The lines of a text from their first character on that is no space; blank ones are left out. -/
def bareLines (cs : List Char) : List String :=
  (((cs.splitOn '\n').map (·.dropWhile (· = ' '))).filter (· ≠ [])).map String.ofList

section Lines

variable {cs : List Char}

@[simp] theorem bareLines_nil : bareLines [] = [] :=
  rfl

theorem bareLines_newline (cs ds : List Char) :
    bareLines (cs ++ '\n' :: ds) = bareLines cs ++ bareLines ds := by
  simp only [bareLines, List.splitOn_append_cons_self, List.map_append, List.filter_append]

/-- The lines after whole lines. -/
theorem bareLines_append (h : Whole cs) (ds : List Char) :
    bareLines (cs ++ ds) = bareLines cs ++ bareLines ds := by
  rcases h with rfl | ⟨r, rfl⟩
  · rfl
  · rw [List.append_assoc, List.singleton_append, bareLines_newline, bareLines_newline,
      bareLines_nil, List.append_nil]

theorem bareLines_concat (cs : List Char) : bareLines (cs ++ ['\n']) = bareLines cs := by
  rw [bareLines_newline, bareLines_nil, List.append_nil]

theorem bareLines_single (h : '\n' ∉ cs) :
    bareLines cs = ([cs.dropWhile (· = ' ')].filter (· ≠ [])).map String.ofList := by
  rw [bareLines, List.splitOn_eq_singleton h, List.map_singleton]

/-- Where a text is indented does not matter. -/
theorem bareLines_indent (n : Nat) (cs : List Char) :
    bareLines (List.replicate n ' ' ++ cs) = bareLines cs := by
  have hsingle : ∀ line : List Char, '\n' ∉ line →
      bareLines (List.replicate n ' ' ++ line) = bareLines line := fun line h => by
    rw [bareLines_single (by simp [h]), bareLines_single h, dropWhile_spaces]
  by_cases h : '\n' ∈ cs
  · obtain ⟨line, rest, rfl, hline⟩ := List.eq_append_cons_of_mem h
    rw [← List.append_assoc, bareLines_newline, bareLines_newline, hsingle line hline]
  · exact hsingle cs h

/-- A line of a comment is the one line of its text. -/
theorem bareLines_comment {text line : String} (h : line ∈ remarkLines text) :
    bareLines line.toList = [line] := by
  rw [← lineComments_eq] at h
  obtain ⟨cs, hline, hcs⟩ := lineComments_contained h
  obtain rfl : line = String.ofList ('/' :: '/' :: cs) := by rw [← hline, String.ofList_toList]
  rw [hline, bareLines_single (by simp [hcs.newline])]
  rfl

end Lines

mutual

/-- The bare lines of a step, where `remark` gives those of a comment. -/
def Step.bare (remark : String → List String) : Step → List String
  | .line text => bareLines text.toList
  | .comment text => remark text
  | .annotated _ lead name trail => bareLines (lead ++ name ++ trail).toList
  | .block header footer steps =>
    bareLines header.toList ++ bareOf remark steps ++ bareLines footer.toList
  | .body footer steps => bareOf remark steps ++ bareLines footer.toList
  | .blank | .fail _ => []

/-- The bare lines of steps. -/
def bareOf (remark : String → List String) : List Step → List String
  | [] => []
  | s :: r => s.bare remark ++ bareOf remark r

end

section Steps

variable (remark : String → List String)

@[simp] theorem bareOf_nil : bareOf remark [] = [] :=
  rfl

@[simp] theorem bareOf_cons (s : Step) (r : List Step) :
    bareOf remark (s :: r) = s.bare remark ++ bareOf remark r :=
  rfl

@[simp] theorem bareOf_append (a b : List Step) :
    bareOf remark (a ++ b) = bareOf remark a ++ bareOf remark b := by
  induction a with
  | nil => rfl
  | cons s a ih => simp [ih]

end Steps

section Mute

mutual

/-- A step with no comment in it. -/
def Step.mute : Step → Bool
  | .comment _ => false
  | .block _ _ steps | .body _ steps => muteAll steps
  | .line _ | .annotated .. | .blank | .fail _ => true

def muteAll : List Step → Bool
  | [] => true
  | s :: r => s.mute && muteAll r

end

@[simp] theorem muteAll_eq_all (steps : List Step) : muteAll steps = steps.all Step.mute := by
  induction steps with
  | nil => rfl
  | cons s r ih => rw [muteAll, ih, List.all_cons]

theorem muteAll_append (a b : List Step) : muteAll (a ++ b) = (muteAll a && muteAll b) := by
  simp

theorem muteAll_flatten {α : Type} {l : List α} {lists : List (List Step)}
    (h : List.Forall₂ (fun _ steps => muteAll steps) l lists) : muteAll lists.flatten := by
  induction h with
  | nil => rfl
  | cons h _ ih => rw [List.flatten_cons, muteAll_append, h, ih, Bool.and_self]

mutual

/-- Without comments it does not matter how they are written. -/
theorem Step.bare_of_mute (remark remark' : String → List String) :
    ∀ s : Step, s.mute → s.bare remark = s.bare remark'
  | .line _, _ | .annotated .., _ | .blank, _ | .fail _, _ => rfl
  | .comment _, h => nomatch h
  | .block _ _ steps, h => by
    rw [Step.bare, Step.bare, bareOf_of_mute remark remark' steps h]
  | .body _ steps, h => by
    rw [Step.bare, Step.bare, bareOf_of_mute remark remark' steps h]

theorem bareOf_of_mute (remark remark' : String → List String) :
    ∀ steps : List Step, muteAll steps → bareOf remark steps = bareOf remark' steps
  | [], _ => rfl
  | s :: r, h => by
    rw [muteAll, Bool.and_eq_true] at h
    rw [bareOf_cons, bareOf_cons, s.bare_of_mute remark remark' h.1,
      bareOf_of_mute remark remark' r h.2]

end

end Mute

/-- A page of whole lines that has the given bare ones. -/
structure Page.Bares (p : Page) (lines : List String) : Prop where
  whole : Whole p.written.reverse
  lines : bareLines p.written.reverse = lines

namespace Page

variable {p : Page} {lines : List String}

theorem bares_empty : ({} : Page).Bares [] :=
  ⟨whole_nil, rfl⟩

/-- A further line, indented in some way. -/
theorem Bares.put (h : p.Bares lines) {q : Page} (n : Nat) (cs : List Char)
    (hq : q.written = (List.replicate n ' ' ++ cs ++ ['\n']).reverse ++ p.written) :
    q.Bares (lines ++ bareLines cs) := by
  have hwritten : q.written.reverse =
      p.written.reverse ++ (List.replicate n ' ' ++ cs ++ ['\n']) := by
    rw [hq, List.reverse_append, List.reverse_reverse]
  constructor
  · rw [hwritten]
    exact h.whole.append (whole_concat _)
  · rw [hwritten, bareLines_append h.whole, h.lines, bareLines_concat, bareLines_indent]

theorem Bares.line (h : p.Bares lines) (text : String) :
    (p.line text).Bares (lines ++ bareLines text.toList) := by
  by_cases ht : text.isEmpty
  · obtain rfl := String.isEmpty_iff.mp ht
    exact h.put 0 [] rfl
  · apply h.put (4 * p.depth) text.toList
    simp [Page.line, ht, indent, Page.put]

theorem Bares.blank (h : p.Bares lines) : p.blank.Bares lines := by
  unfold Page.blank
  split
  · exact h
  · exact h
  · exact h
  · have hput : (p.put ['\n']).Bares (lines ++ bareLines []) := h.put 0 [] rfl
    rwa [bareLines_nil, List.append_nil] at hput

theorem Bares.comment (h : p.Bares lines) {texts : List String}
    (ht : ∀ text ∈ texts, bareLines text.toList = [text]) :
    (texts.foldl Page.line p).Bares (lines ++ texts) := by
  induction texts generalizing p lines with
  | nil => rwa [List.append_nil]
  | cons text texts ih =>
    rw [List.forall_mem_cons] at ht
    have hline := h.line text
    rw [ht.1] at hline
    rw [List.append_cons]
    exact ih hline ht.2

theorem Bares.annotated (h : p.Bares lines) (path : Schema.Path) (lead name trail : String) :
    (p.annotated path lead name trail).Bares
      (lines ++ bareLines (lead ++ name ++ trail).toList) := by
  apply h.put (4 * p.depth)
  rw [(annotated_adds p path lead name trail).written]
  simp [lineText]

/-- Line feeds that are dropped off the end belong to blank lines. -/
theorem bareLines_dropBlankLines (cs : List Char) (size : Nat) (h : Whole cs.reverse) :
    Whole (dropBlankLines cs size).1.reverse ∧
      bareLines (dropBlankLines cs size).1.reverse = bareLines cs.reverse := by
  induction cs, size using Page.dropBlankLines.induct with
  | case1 r size ih =>
    rw [dropBlankLines, List.reverse_cons, bareLines_concat]
    apply ih
    rw [List.reverse_cons]
    exact whole_concat r.reverse
  | case2 cs size hn =>
    rw [dropBlankLines]
    · exact ⟨h, rfl⟩
    · exact hn

theorem Bares.close (h : p.Bares lines) (footer : String) :
    (p.close footer).Bares (lines ++ bareLines footer.toList) := by
  obtain ⟨hwhole, hbare⟩ := bareLines_dropBlankLines p.written p.size h.whole
  have hdropped : Bares { p with
      written := (dropBlankLines p.written p.size).1
      size := (dropBlankLines p.written p.size).2 } lines := ⟨hwhole, hbare.trans h.lines⟩
  exact hdropped.line footer

theorem Bares.deeper (h : p.Bares lines) : p.deeper.Bares lines :=
  ⟨h.whole, h.lines⟩

theorem Bares.shallower (h : p.Bares lines) : p.shallower.Bares lines :=
  ⟨h.whole, h.lines⟩

mutual

/-- A step adds its bare lines to a page. -/
theorem write_bares {p : Page} {lines : List String} (h : p.Bares lines) :
    ∀ s : Step, s.Sound → (p.write s).1.Bares (lines ++ s.bare remarkLines)
  | .line text, _ => by
    rw [write, Step.bare]
    exact h.line text
  | .blank, _ => by
    rw [write, Step.bare, List.append_nil]
    exact h.blank
  | .comment text, _ => by
    rw [write, Step.bare, lineComments_eq]
    exact h.comment fun l hl => bareLines_comment hl
  | .annotated path lead name trail, _ => by
    rw [write, Step.bare]
    exact h.annotated path lead name trail
  | .block header footer steps, hs => by
    have hinner := writeAll_bares (h.line header).deeper steps hs
    rw [write_block, Step.bare, ← List.append_assoc, ← List.append_assoc]
    exact hinner.shallower.close footer
  | .body footer steps, hs => by
    have hinner := writeAll_bares h.deeper steps hs
    rw [write_body, Step.bare, ← List.append_assoc]
    exact hinner.shallower.close footer
  | .fail _, hs => hs.elim

theorem writeAll_bares {p : Page} {lines : List String} (h : p.Bares lines) :
    ∀ steps : List Step, SoundAll steps →
      (p.writeAll steps).1.Bares (lines ++ bareOf remarkLines steps)
  | [], _ => by
    rw [writeAll, bareOf_nil, List.append_nil]
    exact h
  | s :: r, hs => by
    have hr := writeAll_bares (write_bares h s hs.1) r hs.2
    rw [writeAll_cons p (write_succeeds p s hs.1), bareOf_cons, ← List.append_assoc]
    exact hr

end

end Page

/-- The bare lines of a source file are those of its prologue and of its steps. -/
theorem Artifact.assemble_bareLines (path source : String) {prologue : String}
    (hp : Whole prologue.toList) {steps : List Step} (hs : SoundAll steps) :
    bareLines (Artifact.assemble path source prologue
        (({} : Page).writeEach steps)).content.toList =
      bareLines prologue.toList ++ bareOf remarkLines steps := by
  have hbares := (Page.writeAll_bares Page.bares_empty steps hs).lines
  rw [← Page.writeEach_eq (Page.writeAll_succeeds _ steps hs), List.nil_append] at hbares
  rw [Artifact.assemble, String.toList_append, bareLines_append hp, Page.text,
    String.toList_ofList, hbares]

end ProtoJava.Java
