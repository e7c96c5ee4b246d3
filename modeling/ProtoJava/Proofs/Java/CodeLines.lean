import ProtoJava.Proofs.Java.Header
import ProtoJava.Proofs.Java.Texts

/-! # Lines of code

The lines of a source file that are neither blank nor comments. What is written for them does not
depend on the blank lines and comments between them, wherever these stand.
-/

namespace ProtoJava.Java

/-- A line that is not blank and no comment. -/
def isCodeLine (l : List Char) : Bool :=
  match l.dropWhile (· = ' ') with
  | [] | '/' :: '/' :: _ => false
  | _ => true

/-- The lines of code of a text, where the given characters end lines. -/
def codeLines (ends : Char → Bool) (cs : List Char) : List (List Char) :=
  (cs.splitOnP ends).filter isCodeLine

/-- The characters that end lines: line feeds, and no others than carriage returns besides. -/
structure EndLines (ends : Char → Bool) : Prop where
  newline : ends '\n'
  eq_or_eq : ∀ c, ends c → c = '\n' ∨ c = '\r'

/-- A text of whole lines. -/
def Whole (cs : List Char) : Prop :=
  cs = [] ∨ ∃ r, cs = r ++ ['\n']

section Whole

variable {cs ds : List Char}

theorem whole_nil : Whole [] :=
  Or.inl rfl

theorem whole_concat (cs : List Char) : Whole (cs ++ ['\n']) :=
  Or.inr ⟨cs, rfl⟩

theorem Whole.append (hc : Whole cs) (hd : Whole ds) : Whole (cs ++ ds) := by
  rcases hd with rfl | ⟨r, rfl⟩
  · rwa [List.append_nil]
  · rw [← List.append_assoc]
    exact whole_concat (cs ++ r)

theorem whole_lineText (depth : Nat) (text : String) : Whole (lineText depth text).toList := by
  rw [lineText, String.toList_append]
  exact whole_concat _

theorem whole_unlines (ls : List String) : Whole (unlines ls).toList := by
  rw [toList_unlines]
  induction ls with
  | nil => exact whole_nil
  | cons l ls ih =>
    rw [List.flatMap_cons]
    exact (whole_concat l.toList).append ih

end Whole

section Code

theorem dropWhile_spaces (n : Nat) (cs : List Char) :
    (List.replicate n ' ' ++ cs).dropWhile (· = ' ') = cs.dropWhile (· = ' ') := by
  induction n with
  | zero => rfl
  | succ n ih => simp [List.replicate_succ, ih]

variable {ends : Char → Bool} (hends : EndLines ends) {cs ds : List Char}

theorem codeLines_nil : codeLines ends [] = [] := by
  rw [codeLines, List.splitOnP_nil]
  rfl

include hends

theorem codeLines_newline (cs ds : List Char) :
    codeLines ends (cs ++ '\n' :: ds) = codeLines ends cs ++ codeLines ends ds := by
  rw [codeLines, List.splitOnP_append_cons _ _ hends.newline, List.filter_append]
  rfl

/-- The lines of code after whole lines. -/
theorem codeLines_append (h : Whole cs) (ds : List Char) :
    codeLines ends (cs ++ ds) = codeLines ends cs ++ codeLines ends ds := by
  rcases h with rfl | ⟨r, rfl⟩
  · rw [codeLines_nil]
    rfl
  · rw [List.append_assoc, List.singleton_append, codeLines_newline hends, codeLines_newline hends,
      codeLines_nil, List.append_nil]

/-- A single line that is none of code. -/
theorem codeLines_single (hn : '\n' ∉ cs) (hr : '\r' ∉ cs) (hc : isCodeLine cs = false) :
    codeLines ends (cs ++ ['\n']) = [] := by
  have hsingle : cs.splitOnP ends = [cs] := by
    refine List.splitOnP_eq_singleton fun c hm => ?_
    by_contra he
    rcases hends.eq_or_eq c (by simpa using he) with rfl | rfl
    · exact hn hm
    · exact hr hm
  rw [codeLines_newline hends, codeLines_nil, codeLines, hsingle, List.append_nil,
    List.filter_singleton, hc]
  rfl

theorem codeLines_blank (n : Nat) : codeLines ends (List.replicate n ' ' ++ ['\n']) = [] := by
  refine codeLines_single hends (by simp) (by simp) ?_
  have hdrop := dropWhile_spaces n []
  rw [List.append_nil] at hdrop
  rw [isCodeLine, hdrop]
  rfl

/-- A line of a comment is no line of code, however deep it stands. -/
theorem codeLines_comment (depth : Nat) {text l : String} (h : l ∈ lineComments text) :
    codeLines ends (lineText depth l).toList = [] := by
  obtain ⟨cs, hl, hcs⟩ := lineComments_contained h
  have hline : (lineText depth l).toList =
      (List.replicate (4 * depth) ' ' ++ '/' :: '/' :: cs) ++ ['\n'] := by
    simp [lineText, hl]
  rw [hline]
  refine codeLines_single hends (by simp [hcs.newline]) (by simp [hcs.carriageReturn]) ?_
  rw [isCodeLine, dropWhile_spaces]
  rfl

end Code

/-- A page of whole lines, with the same lines of code as a text. -/
structure Page.Codes (ends : Char → Bool) (p : Page) (d : Nat) (text : List Char) : Prop where
  depth : p.depth = d
  written : Whole p.written.reverse
  whole : Whole text
  code : codeLines ends p.written.reverse = codeLines ends text

namespace Page

section Codes

variable {ends : Char → Bool} (hends : EndLines ends) {p : Page} {d : Nat} {text : List Char}

theorem codes_empty : Codes ends {} 0 [] :=
  ⟨rfl, whole_nil, whole_nil, rfl⟩

theorem Codes.deeper (h : p.Codes ends d text) : p.deeper.Codes ends (d + 1) text :=
  ⟨congrArg (· + 1) h.depth, h.written, h.whole, h.code⟩

theorem Codes.shallower (h : p.Codes ends (d + 1) text) : p.shallower.Codes ends d text :=
  ⟨congrArg (· - 1) h.depth, h.written, h.whole, h.code⟩

include hends

/-- A further line, which has the lines of code of a given one. -/
theorem Codes.put (h : p.Codes ends d text) {q : Page} (cs : List Char) {line : List Char}
    (hq : q.written = (cs ++ ['\n']).reverse ++ p.written) (hd : q.depth = p.depth)
    (hl : Whole line) (hcode : codeLines ends (cs ++ ['\n']) = codeLines ends line) :
    q.Codes ends d (text ++ line) := by
  have hwritten : q.written.reverse = p.written.reverse ++ (cs ++ ['\n']) := by simp [hq]
  refine ⟨hd.trans h.depth, ?_, h.whole.append hl, ?_⟩
  · rw [hwritten]
    exact h.written.append (whole_concat cs)
  · rw [hwritten, codeLines_append hends h.written, codeLines_append hends h.whole, h.code, hcode]

theorem Codes.line (h : p.Codes ends d text) (s : String) :
    (p.line s).Codes ends d (text ++ (lineText d s).toList) := by
  by_cases hs : s.isEmpty
  · obtain rfl := String.isEmpty_iff.mp hs
    refine h.put hends [] rfl rfl (whole_lineText d "") ?_
    have hblank : (lineText d "").toList = List.replicate (4 * d) ' ' ++ ['\n'] := by
      simp [lineText]
    rw [hblank, codeLines_blank hends]
    exact codeLines_blank hends 0
  · have hline : (lineText d s).toList = (List.replicate (4 * d) ' ' ++ s.toList) ++ ['\n'] := by
      simp [lineText]
    refine h.put hends (List.replicate (4 * d) ' ' ++ s.toList) ?_ ?_ (whole_lineText d s) ?_
    · simp [Page.line, hs, indent, Page.put, h.depth]
    · simp [Page.line, hs, indent, Page.put]
    · rw [hline]

/-- A further line that is none of code. -/
theorem Codes.skip (h : p.Codes ends d text) {s : String}
    (hs : codeLines ends (lineText d s).toList = []) : (p.line s).Codes ends d text := by
  have hline := h.line hends s
  refine ⟨hline.depth, hline.written, h.whole, hline.code.trans ?_⟩
  rw [codeLines_append hends h.whole, hs, List.append_nil]

theorem Codes.blank (h : p.Codes ends d text) : p.blank.Codes ends d text := by
  unfold Page.blank
  split
  · exact h
  · exact h
  · exact h
  · have hput : (p.put ['\n']).Codes ends d (text ++ []) :=
      h.put hends [] rfl rfl whole_nil (codeLines_blank hends 0)
    rwa [List.append_nil] at hput

theorem Codes.comments (h : p.Codes ends d text) {ls : List String}
    (hls : ∀ l ∈ ls, codeLines ends (lineText d l).toList = []) :
    (ls.foldl Page.line p).Codes ends d text := by
  induction ls generalizing p with
  | nil => exact h
  | cons l ls ih =>
    rw [List.forall_mem_cons] at hls
    exact ih (h.skip hends hls.1) hls.2

theorem Codes.annotated (h : p.Codes ends d text) (path : Schema.Path) (lead name trail : String) :
    (p.annotated path lead name trail).Codes ends d
      (text ++ (lineText d (lead ++ name ++ trail)).toList) := by
  have hadds := annotated_adds p path lead name trail
  have hline : (lineText d (lead ++ name ++ trail)).toList =
      (List.replicate (4 * d) ' ' ++ (lead ++ name ++ trail).toList) ++ ['\n'] := by
    simp [lineText]
  refine h.put hends _ ?_ hadds.depth (whole_lineText d _) (congrArg (codeLines ends) hline.symm)
  rw [hadds.written, h.depth, hline]

/-- The lines of code stay when line feeds are dropped off the end. -/
theorem codeLines_dropBlankLines (cs : List Char) (size : Nat) (h : Whole cs.reverse) :
    Whole (dropBlankLines cs size).1.reverse ∧
      codeLines ends (dropBlankLines cs size).1.reverse = codeLines ends cs.reverse := by
  induction cs, size using Page.dropBlankLines.induct with
  | case1 r size ih =>
    have hrest : ('\n' :: '\n' :: r).reverse = ('\n' :: r).reverse ++ '\n' :: [] := by simp
    rw [dropBlankLines, hrest, codeLines_newline hends, codeLines_nil, List.append_nil]
    refine ih ?_
    rw [List.reverse_cons]
    exact whole_concat r.reverse
  | case2 cs size hn =>
    rw [dropBlankLines]
    · exact ⟨h, rfl⟩
    · exact hn

theorem Codes.close (h : p.Codes ends d text) (footer : String) :
    (p.close footer).Codes ends d (text ++ (lineText d footer).toList) := by
  obtain ⟨hwhole, hcode⟩ := codeLines_dropBlankLines hends p.written p.size h.written
  have hdropped : Codes ends { p with
      written := (dropBlankLines p.written p.size).1
      size := (dropBlankLines p.written p.size).2 } d text :=
    ⟨h.depth, hwhole, h.whole, hcode.trans h.code⟩
  exact hdropped.line hends footer

end Codes

mutual

/-- A step adds the lines of code that its text has. -/
theorem write_codes {ends : Char → Bool} (hends : EndLines ends) {p : Page} {d : Nat}
    {text : List Char} (h : p.Codes ends d text) :
    ∀ s : Step, s.Sound → (p.write s).1.Codes ends d (text ++ (s.text d).toList)
  | .line s, _ => by
    rw [write, Step.text]
    exact h.line hends s
  | .blank, _ => by
    rw [write, Step.text, String.toList_empty, List.append_nil]
    exact h.blank hends
  | .comment s, _ => by
    rw [write, Step.text, String.toList_empty, List.append_nil]
    exact h.comments hends fun l hl => codeLines_comment hends d hl
  | .annotated path lead name trail, _ => by
    rw [write, Step.text]
    exact h.annotated hends path lead name trail
  | .block header footer steps, hs => by
    have hinner := writeAll_codes hends (h.line hends header).deeper steps hs
    rw [write_block, Step.text, String.toList_append, String.toList_append]
    simpa using hinner.shallower.close hends footer
  | .body footer steps, hs => by
    have hinner := writeAll_codes hends h.deeper steps hs
    rw [write_body, Step.text, String.toList_append]
    simpa using hinner.shallower.close hends footer
  | .fail _, hs => hs.elim

theorem writeAll_codes {ends : Char → Bool} (hends : EndLines ends) {p : Page} {d : Nat}
    {text : List Char} (h : p.Codes ends d text) :
    ∀ steps : List Step, SoundAll steps →
      (p.writeAll steps).1.Codes ends d (text ++ (textOf d steps).toList)
  | [], _ => by
    rw [writeAll, textOf, String.toList_empty, List.append_nil]
    exact h
  | s :: r, hs => by
    have hr := writeAll_codes hends (write_codes hends h s hs.1) r hs.2
    rw [writeAll_cons p (write_succeeds p s hs.1), textOf, String.toList_append]
    rwa [List.append_assoc] at hr

end

end Page

/-- Steps with the same text and annotations, their blank lines and comments apart. -/
structure SameText (a b : List Step) : Prop where
  text : ∀ depth, textOf depth a = textOf depth b
  labels : labelsOf a = labelsOf b
  sound : SoundAll a → SoundAll b

/-- Comments have no text, so any can be in the place of any other. -/
theorem sameText_comments (a b : Option String) : SameText (commentSteps a) (commentSteps b) := by
  have hnone : ∀ c : Option String, (∀ depth, textOf depth (commentSteps c) = "") ∧
      labelsOf (commentSteps c) = [] ∧ SoundAll (commentSteps c) := by
    intro c
    cases c with
    | none => exact ⟨fun _ => rfl, rfl, trivial⟩
    | some text => exact ⟨fun _ => rfl, rfl, trivial, trivial⟩
  obtain ⟨hta, hla, -⟩ := hnone a
  obtain ⟨htb, hlb, hsb⟩ := hnone b
  exact ⟨fun depth => (hta depth).trans (htb depth).symm, hla.trans hlb.symm, fun _ => hsb⟩

/-- Source files of the same path, with the same lines of code and the same names annotated. -/
structure Artifact.SameCode (a b : Artifact) : Prop where
  path : a.path = b.path
  source : a.source = b.source
  code : ∀ ends, EndLines ends →
    codeLines ends a.content.toList = codeLines ends b.content.toList
  labels : a.labels = b.labels

/-- The lines of code of a source file are those of its prologue and of its steps. -/
theorem Artifact.assemble_codeLines {ends : Char → Bool} (hends : EndLines ends)
    (path source : String) {prologue : String} (hp : Whole prologue.toList) {steps : List Step}
    (hs : SoundAll steps) :
    codeLines ends (Artifact.assemble path source prologue
        (({} : Page).writeEach steps)).content.toList =
      codeLines ends prologue.toList ++ codeLines ends (textOf 0 steps).toList := by
  have hcodes := (Page.writeAll_codes hends Page.codes_empty steps hs).code
  rw [← Page.writeEach_eq (Page.writeAll_succeeds _ steps hs)] at hcodes
  simp only [Artifact.assemble]
  rw [String.toList_append, codeLines_append hends hp, Page.text, String.toList_ofList, hcodes]
  rfl

theorem Artifact.assemble_sameCode (path source : String) {prologue : String}
    (hp : Whole prologue.toList) {a b : List Step} (h : SameText a b) (ha : SoundAll a) :
    (Artifact.assemble path source prologue (({} : Page).writeEach a)).SameCode
      (Artifact.assemble path source prologue (({} : Page).writeEach b)) where
  path := rfl
  source := rfl
  code ends hends := by
    rw [assemble_codeLines hends path source hp ha,
      assemble_codeLines hends path source hp (h.sound ha), h.text]
  labels := by
    rw [assemble_labels path source prologue ha, assemble_labels path source prologue (h.sound ha),
      h.labels]

end ProtoJava.Java
