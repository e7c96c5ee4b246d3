import ProtoJava.Proofs.Java.CodeLines
import ProtoJava.Proofs.Java.Remarks
import ProtoJava.Proofs.Java.Rows

/-! # Layout of a page

A page is laid out in the rows of the steps written on it. Empty lines stand between them only where
a page keeps them, and nothing written later changes the rows before.
-/

namespace ProtoJava.Java

/-- A text that makes one line, which is not empty. -/
def Filled (text : String) : Prop :=
  text ≠ "" ∧ Inline text

instance (text : String) : Decidable (Filled text) :=
  inferInstanceAs (Decidable (_ ∧ _))

mutual

/-- A step that is given filled lines only. -/
def Step.Filled : Step → Prop
  | .line text => Java.Filled text
  | .annotated _ lead name trail => Java.Filled (lead ++ name ++ trail)
  | .block header footer steps => Java.Filled header ∧ Java.Filled footer ∧ FilledAll steps
  | .body footer steps => Java.Filled footer ∧ FilledAll steps
  | .blank | .comment _ | .fail _ => True

def FilledAll : List Step → Prop
  | [] => True
  | s :: r => s.Filled ∧ FilledAll r

end

section Lines

/-- The lines of a text that are not empty. -/
def nonemptyLines (cs : List Char) : List (List Char) :=
  (cs.splitOn '\n').filter (· ≠ [])

variable {cs ds l : List Char}

theorem nonemptyLines_nil : nonemptyLines [] = [] :=
  rfl

theorem nonemptyLines_newline (cs ds : List Char) :
    nonemptyLines (cs ++ '\n' :: ds) = nonemptyLines cs ++ nonemptyLines ds := by
  rw [nonemptyLines, List.splitOn_append_cons_self, List.filter_append]
  rfl

theorem nonemptyLines_single (hl : l ≠ []) (hn : '\n' ∉ l) : nonemptyLines l = [l] := by
  rw [nonemptyLines, List.splitOn_eq_singleton hn, List.filter_singleton]
  simp [hl]

theorem nonemptyLines_append (h : Whole cs) (ds : List Char) :
    nonemptyLines (cs ++ ds) = nonemptyLines cs ++ nonemptyLines ds := by
  rcases h with rfl | ⟨r, rfl⟩
  · rfl
  · rw [List.append_assoc, List.singleton_append, nonemptyLines_newline, nonemptyLines_newline,
      nonemptyLines_nil, List.append_nil]

theorem exists_cons_ne (hl : l ≠ []) (hn : '\n' ∉ l) : ∃ c r, l = c :: r ∧ '\n' ≠ c := by
  obtain ⟨c, r, rfl⟩ := List.exists_cons_of_ne_nil hl
  rw [List.mem_cons, not_or] at hn
  exact ⟨c, r, rfl, hn.1⟩

/-- A line feed is not found among characters that are none. -/
theorem infix_append_iff {p : List Char} (hn : '\n' ∉ l) :
    '\n' :: p <:+: l ++ cs ↔ '\n' :: p <:+: cs := by
  induction l with
  | nil => rfl
  | cons c l ih =>
    rw [List.mem_cons, not_or] at hn
    rw [List.cons_append, List.infix_cons_iff, List.cons_prefix_cons, ih hn.2]
    simp [hn.1]

variable {r : Row}

theorem Row.line_ne_nil (h : Filled r.text) : r.line ≠ [] := by
  simp [Row.line, h.1]

theorem Row.newline_not_mem_line (h : Filled r.text) : '\n' ∉ r.line := by
  have hn : '\n' ∉ r.text.toList := h.2
  simp [Row.line, hn]

/-- A line feed does not come first where a filled row does. -/
theorem Row.not_prefix (h : Filled r.text) (p cs : List Char) :
    ¬ '\n' :: p <+: r.line.reverse ++ cs := by
  obtain ⟨c, l, hl, hc⟩ := exists_cons_ne (List.reverse_ne_nil_iff.mpr (r.line_ne_nil h))
    (List.mem_reverse.not.mpr (r.newline_not_mem_line h))
  rw [hl, List.cons_append, List.cons_prefix_cons]
  exact fun h => hc h.1

/-- A line of a comment is not empty, whatever the comment. -/
theorem filled_of_mem_lineComments {text line : String} (h : line ∈ lineComments text) :
    Filled line := by
  obtain ⟨cs, hcs, hcontained⟩ := lineComments_contained h
  constructor
  · rintro rfl
    cases hcs
  · rw [Inline, hcs]
    simp [hcontained.newline]

end Lines

/-- A text, last character first, of filled rows. An empty line may stand after a row, once, but not
after an opening brace or before a footer. -/
inductive Spaced : List Char → List Row → Prop
  | empty : Spaced [] []
  | row {cs rows} (r : Row) (h : Spaced cs rows) (hfilled : Filled r.text)
    (hfooter : r.role = .footer → ¬ ['\n', '\n'] <+: cs) :
    Spaced ('\n' :: (r.line.reverse ++ cs)) (rows ++ [r])
  | gap {cs rows} (h : Spaced cs rows) (hne : cs ≠ []) (hgap : ¬ ['\n', '\n'] <+: cs)
    (hbrace : ¬ ['\n', '\x7b'] <+: cs) : Spaced ('\n' :: cs) rows

namespace Spaced

variable {cs : List Char} {rows : List Row}

theorem whole (h : Spaced cs rows) : Whole cs.reverse := by
  cases h with
  | empty => exact whole_nil
  | row r h hfilled hfooter =>
    rw [List.reverse_cons]
    exact whole_concat _
  | gap h hne hgap hbrace =>
    rw [List.reverse_cons]
    exact whole_concat _

/-- The first line is not empty. -/
theorem head?_ne (h : Spaced cs rows) : cs.reverse.head? ≠ some '\n' := by
  induction h with
  | empty => simp
  | row r h hfilled hfooter ih =>
    obtain ⟨c, l, hl, hc⟩ := exists_cons_ne (r.line_ne_nil hfilled) (r.newline_not_mem_line hfilled)
    rw [List.reverse_cons, List.reverse_append, List.reverse_reverse, hl, List.append_assoc,
      List.head?_append]
    cases hcs : List.head? _ with
    | none => simpa using hc.symm
    | some x =>
      rw [hcs] at ih
      exact ih
  | gap h hne hgap hbrace ih =>
    rw [List.reverse_cons, List.head?_append_of_ne_nil _ (by simpa using hne)]
    exact ih

/-- After an empty line there is no further one, and before it no opening brace. -/
theorem not_infix (h : Spaced cs rows) {c : Char} (hc : c = '\n' ∨ c = '\x7b') :
    ¬ ['\n', '\n', c] <:+: cs := by
  induction h with
  | empty => simp
  | row r h hfilled hfooter ih =>
    have hn : '\n' ∉ r.line.reverse := List.mem_reverse.not.mpr (r.newline_not_mem_line hfilled)
    rw [List.infix_cons_iff, List.cons_prefix_cons, infix_append_iff hn, not_or]
    exact ⟨fun hp => r.not_prefix hfilled [c] _ hp.2, ih⟩
  | gap h hne hgap hbrace ih =>
    rw [List.infix_cons_iff, List.cons_prefix_cons, not_or]
    refine ⟨?_, ih⟩
    rintro ⟨-, hp⟩
    rcases hc with rfl | rfl
    · exact hgap hp
    · exact hbrace hp

theorem lines (h : Spaced cs rows) : nonemptyLines cs.reverse = rows.map Row.line := by
  induction h with
  | empty => rfl
  | row r h hfilled hfooter ih =>
    rw [List.reverse_cons, List.reverse_append, List.reverse_reverse, List.append_assoc,
      nonemptyLines_append h.whole, ih, nonemptyLines_newline,
      nonemptyLines_single (r.line_ne_nil hfilled) (r.newline_not_mem_line hfilled),
      nonemptyLines_nil, List.map_append]
    rfl
  | gap h hne hgap hbrace ih =>
    rw [List.reverse_cons, nonemptyLines_newline, nonemptyLines_nil, List.append_nil, ih]

/-- Before a footer there is no empty line. -/
theorem footed (h : Spaced cs rows) {before after : List Row} {f : Row}
    (hrows : rows = before ++ f :: after) (hf : f.role = .footer) :
    ∃ a b, cs.reverse = a ++ f.line ++ '\n' :: b ∧ Whole a ∧ ¬ ['\n', '\n'] <:+ a ∧
      nonemptyLines a = before.map Row.line := by
  induction h generalizing after with
  | empty => simp at hrows
  | row r h hfilled hfooter ih =>
    rcases List.eq_nil_or_concat' after with rfl | ⟨after, x, rfl⟩
    · obtain ⟨rfl, hr⟩ := List.append_inj' hrows rfl
      obtain rfl : r = f := List.singleton_inj.mp hr
      refine ⟨_, [], by simp, h.whole, ?_, h.lines⟩
      rw [← List.reverse_prefix, List.reverse_reverse]
      exact hfooter hf
    · rw [← List.cons_append, ← List.append_assoc] at hrows
      obtain ⟨hrows, -⟩ := List.append_inj' hrows rfl
      obtain ⟨a, b, htext, ha⟩ := ih hrows
      refine ⟨a, b ++ r.line ++ ['\n'], ?_, ha⟩
      simp [htext]
  | gap h hne hgap hbrace ih =>
    obtain ⟨a, b, htext, ha⟩ := ih hrows
    refine ⟨a, b ++ ['\n'], ?_, ha⟩
    simp [htext]

/-- An empty line at the end can be taken away. -/
theorem of_gap (h : Spaced ('\n' :: '\n' :: cs) rows) : Spaced ('\n' :: cs) rows := by
  generalize hw : '\n' :: '\n' :: cs = w at h
  cases h with
  | empty => cases hw
  | row r h hfilled hfooter =>
    exact absurd ⟨cs, (List.cons.inj hw).2⟩ (r.not_prefix hfilled [] _)
  | gap h hne hgap hbrace =>
    obtain rfl := (List.cons.inj hw).2
    exact h

/-- Where line feeds are dropped off the end, no empty line is left there. -/
theorem dropBlankLines (h : Spaced cs rows) (size : Nat) :
    Spaced (Page.dropBlankLines cs size).1 rows ∧
      ¬ ['\n', '\n'] <+: (Page.dropBlankLines cs size).1 := by
  induction cs, size using Page.dropBlankLines.induct with
  | case1 rest size ih =>
    rw [Page.dropBlankLines]
    exact ih h.of_gap
  | case2 cs size hn =>
    rw [Page.dropBlankLines]
    · refine ⟨h, ?_⟩
      rintro ⟨rest, rfl⟩
      exact hn rest rfl
    · exact hn

end Spaced

namespace Page

/-- A page at a depth of nesting, laid out in the given rows. -/
structure LaidOut (p : Page) (d : Nat) (rows : List Row) : Prop where
  depth : p.depth = d
  spaced : Spaced p.written rows

section LaidOut

variable {p : Page} {d : Nat} {rows : List Row}

theorem laidOut_empty : ({} : Page).LaidOut 0 [] :=
  ⟨rfl, .empty⟩

theorem LaidOut.deeper (h : p.LaidOut d rows) : p.deeper.LaidOut (d + 1) rows :=
  ⟨congrArg (· + 1) h.depth, h.spaced⟩

theorem LaidOut.shallower (h : p.LaidOut (d + 1) rows) : p.shallower.LaidOut d rows :=
  ⟨congrArg (· - 1) h.depth, h.spaced⟩

/-- A further row. -/
theorem LaidOut.put (h : p.LaidOut d rows) {text : String} (hfilled : Filled text) (role : Role)
    (hfooter : role = .footer → ¬ ['\n', '\n'] <+: p.written) {q : Page}
    (hq : q.written = (lineText d text).toList.reverse ++ p.written) (hd : q.depth = p.depth) :
    q.LaidOut d (rows ++ [⟨d, text, role⟩]) := by
  refine ⟨hd.trans h.depth, ?_⟩
  have hrow := h.spaced.row ⟨d, text, role⟩ hfilled hfooter
  have hwritten : q.written =
      '\n' :: ((Row.mk d text role).line.reverse ++ p.written) := by
    simp [hq, lineText, Row.line]
  rwa [hwritten]

theorem LaidOut.line (h : p.LaidOut d rows) {text : String} (hfilled : Filled text) (role : Role)
    (hfooter : role = .footer → ¬ ['\n', '\n'] <+: p.written) :
    (p.line text).LaidOut d (rows ++ [⟨d, text, role⟩]) := by
  rw [line_eq_put p hfilled.1, h.depth]
  exact h.put hfilled role hfooter rfl rfl

theorem LaidOut.lines (h : p.LaidOut d rows) {texts : List String}
    (hfilled : ∀ text ∈ texts, Filled text) :
    (texts.foldl Page.line p).LaidOut d (rows ++ texts.map fun text => { depth := d, text }) := by
  induction texts generalizing p rows with
  | nil => rwa [List.map_nil, List.append_nil]
  | cons text texts ih =>
    rw [List.forall_mem_cons] at hfilled
    rw [List.map_cons, List.append_cons]
    exact ih (h.line hfilled.1 .plain nofun) hfilled.2

theorem LaidOut.annotated (h : p.LaidOut d rows) (path : Schema.Path) {lead name trail : String}
    (hfilled : Filled (lead ++ name ++ trail)) :
    (p.annotated path lead name trail).LaidOut d
      (rows ++ [{ depth := d, text := lead ++ name ++ trail }]) := by
  have hadds := annotated_adds p path lead name trail
  rw [h.depth] at hadds
  exact h.put hfilled .plain nofun hadds.written hadds.depth

/-- An empty line is written just where a gap may be. -/
theorem LaidOut.blank (h : p.LaidOut d rows) : p.blank.LaidOut d rows := by
  unfold Page.blank
  split
  · exact h
  · exact h
  · exact h
  · next hne hgap hbrace =>
    refine ⟨h.depth, h.spaced.gap hne ?_ ?_⟩
    · rintro ⟨rest, hrest⟩
      exact hgap rest hrest.symm
    · rintro ⟨rest, hrest⟩
      exact hbrace rest hrest.symm

theorem LaidOut.close (h : p.LaidOut d rows) {footer : String} (hfilled : Filled footer) :
    (p.close footer).LaidOut d (rows ++ [⟨d, footer, .footer⟩]) := by
  obtain ⟨hspaced, hgap⟩ := h.spaced.dropBlankLines p.size
  have hdropped : LaidOut { p with
      written := (dropBlankLines p.written p.size).1
      size := (dropBlankLines p.written p.size).2 } d rows := ⟨h.depth, hspaced⟩
  exact hdropped.line hfilled .footer fun _ => hgap

end LaidOut

mutual

/-- A step adds its rows to a page. -/
theorem write_laidOut {p : Page} {d : Nat} {rows : List Row} (h : p.LaidOut d rows) :
    ∀ s : Step, s.Filled → (p.write s).1.LaidOut d (rows ++ s.rows d)
  | .line text, hs => by
    rw [write, Step.rows]
    exact h.line hs .plain nofun
  | .blank, _ => by
    rw [write, Step.rows, List.append_nil]
    exact h.blank
  | .comment text, _ => by
    rw [write, Step.rows]
    exact h.lines fun l hl => filled_of_mem_lineComments hl
  | .annotated path lead name trail, hs => by
    rw [write, Step.rows]
    exact h.annotated path hs
  | .block header footer steps, hs => by
    obtain ⟨hheader, hfooter, hsteps⟩ := hs
    have hinner := writeAll_laidOut (h.line hheader (.header footer) nofun).deeper steps hsteps
    rw [write_block, Step.rows, List.append_cons, ← List.append_assoc]
    exact hinner.shallower.close hfooter
  | .body footer steps, hs => by
    obtain ⟨hfooter, hsteps⟩ := hs
    have hinner := writeAll_laidOut h.deeper steps hsteps
    rw [write_body, Step.rows, ← List.append_assoc]
    exact hinner.shallower.close hfooter
  | .fail e, _ => by
    rw [write, Step.rows, List.append_nil]
    exact h

theorem writeAll_laidOut {p : Page} {d : Nat} {rows : List Row} (h : p.LaidOut d rows) :
    ∀ steps, FilledAll steps → (p.writeAll steps).1.LaidOut d (rows ++ rowsOf d steps)
  | [], _ => by
    rw [writeAll, rowsOf, List.append_nil]
    exact h
  | s :: r, hs => by
    have hstep := write_laidOut h s hs.1
    rw [writeAll_cons_eq, rowsOf]
    split
    · rwa [List.append_nil]
    · rw [← List.append_assoc]
      exact writeAll_laidOut hstep r hs.2

end

theorem writeEach_laidOut {p : Page} {d : Nat} {rows : List Row} (h : p.LaidOut d rows)
    {steps : List Step} (hs : FilledAll steps) :
    (p.writeEach steps).LaidOut d (rows ++ steps.flatMap (Step.rows d)) := by
  induction steps generalizing p rows with
  | nil =>
    rw [List.flatMap_nil, List.append_nil]
    exact h
  | cons s steps ih =>
    rw [List.flatMap_cons, ← List.append_assoc]
    exact ih (write_laidOut h s hs.1) hs.2

end Page

section Discipline

/-- A text of the given rows, and how empty lines may stand between them. -/
structure Disciplined (text : List Char) (rows : List Row) : Prop where
  whole : Whole text
  start : text.head? ≠ some '\n'
  single : ¬ ['\n', '\n', '\n'] <:+: text
  opened : ¬ ['\x7b', '\n', '\n'] <:+: text
  lines : nonemptyLines text = rows.map Row.line
  closed : Closed rows
  footed : ∀ before f after, rows = before ++ f :: after → f.role = .footer →
    ∃ a b, text = a ++ f.line ++ '\n' :: b ∧ Whole a ∧ ¬ ['\n', '\n'] <:+ a ∧
      nonemptyLines a = before.map Row.line

theorem Page.LaidOut.disciplined {p : Page} {d : Nat} {rows : List Row} (h : p.LaidOut d rows)
    (hclosed : Closed rows) : Disciplined p.text.toList rows := by
  rw [Page.text, String.toList_ofList]
  constructor
  case whole => exact h.spaced.whole
  case start => exact h.spaced.head?_ne
  case single =>
    rw [← List.reverse_infix, List.reverse_reverse]
    exact h.spaced.not_infix (.inl rfl)
  case opened =>
    rw [← List.reverse_infix, List.reverse_reverse]
    exact h.spaced.not_infix (.inr rfl)
  case lines => exact h.spaced.lines
  case closed => exact hclosed
  case footed => exact fun before f after => h.spaced.footed

/-- A page is at the depth of another one, and has the text of it that comes before blank lines at
its end. -/
structure Page.Keeps (p q : Page) : Prop where
  depth : q.depth = p.depth
  text : ∀ kept, kept <+: p.text.toList → ¬ ['\n', '\n'] <:+ kept → kept <+: q.text.toList

theorem Page.keeps_of_extends {p q : Page}
    (h : ∀ {base}, (∀ r, base ≠ '\n' :: '\n' :: r) → p.Extends base p.depth →
      q.Extends base p.depth) : p.Keeps q := by
  constructor
  case depth => exact (h (by simp) ⟨List.nil_suffix, rfl⟩).depth
  case text =>
    intro kept hkept hend
    rw [Page.text, String.toList_ofList] at hkept ⊢
    rw [← List.reverse_suffix, List.reverse_reverse] at hkept ⊢
    refine (h ?_ ⟨hkept, rfl⟩).written
    intro r hr
    apply hend
    rw [← List.reverse_prefix, hr]
    exact ⟨r, rfl⟩

/-- Whatever steps nest and wherever they fail, their text is disciplined if the lines they are
given are filled. What comes after a failing step is as if it were not there, and whatever is
written, what stands on a page stays, at most the blank lines at its end apart. -/
theorem layout_disciplined {steps : List Step} (h : FilledAll steps) :
    Disciplined (({} : Page).writeAll steps).1.text.toList (rowsOf 0 steps) ∧
      Disciplined (({} : Page).writeEach steps).text.toList (steps.flatMap (Step.rows 0)) ∧
      (∀ p : Page, p.writeAll (cutAll steps) = p.writeAll steps ∧
        p.writeEach (steps.map Step.cut) = p.writeEach steps) ∧
      ∀ p : Page, (∀ s, p.Keeps (p.write s).1) ∧ (∀ later, p.Keeps (p.writeAll later).1) ∧
        ∀ footer, p.Keeps (p.close footer) := by
  have hall := Page.writeAll_laidOut Page.laidOut_empty steps h
  have heach := Page.writeEach_laidOut Page.laidOut_empty h
  rw [List.nil_append] at hall heach
  refine ⟨hall.disciplined (closed_rowsOf 0 steps),
    heach.disciplined (closed_flatMap_rows 0 steps),
    fun p => ⟨p.writeAll_cutAll steps, p.writeEach_cut steps⟩, fun p => ⟨?_, ?_, ?_⟩⟩
  · intro s
    exact Page.keeps_of_extends fun hb hp => Page.write_extends hb hp s
  · intro later
    exact Page.keeps_of_extends fun hb hp => Page.writeAll_extends hb hp later
  · intro footer
    exact Page.keeps_of_extends fun hb hp => hp.close hb footer

/-- Blank lines at both ends of a block, a failure inside one, and a row that ends with a brace. -/
theorem layout_disciplined_failing :
    let e : Error := .schema (.unresolvedType "T")
    let steps : List Step :=
      [.blank, .block "class A \x7b" "\x7d"
        [.blank, .line "int a;", .blank, .blank,
          .block "if (a) \x7b" "\x7d" [.line "b();", .blank, .fail e, .line "lost"],
          .line "lost"],
        .blank, .annotated [4, 0] "enum " "E" " \x7b", .body "\x7d" [.comment "\n", .blank]]
    FilledAll steps ∧
      (({} : Page).writeEach steps).text =
        "class A \x7b\n    int a;\n\n    if (a) \x7b\n        b();\n    \x7d\n\x7d\n\n" ++
          "enum E \x7b\n    //\n\x7d\n" ∧
      Disciplined (({} : Page).writeEach steps).text.toList (steps.flatMap (Step.rows 0)) ∧
      steps.flatMap (Step.rows 0) =
        [⟨0, "class A \x7b", .header "\x7d"⟩, ⟨1, "int a;", .plain⟩,
          ⟨1, "if (a) \x7b", .header "\x7d"⟩, ⟨2, "b();", .plain⟩, ⟨1, "\x7d", .footer⟩,
          ⟨0, "\x7d", .footer⟩, ⟨0, "enum E \x7b", .plain⟩, ⟨1, "//", .plain⟩,
          ⟨0, "\x7d", .footer⟩] := by
  intro e steps
  have h : FilledAll steps := by
    simp only [steps, FilledAll, Step.Filled]
    decide
  exact ⟨h, by decide +kernel, (layout_disciplined h).2.1, by decide +kernel⟩

end Discipline

end ProtoJava.Java
