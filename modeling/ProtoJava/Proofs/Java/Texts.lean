import ProtoJava.Java.Snippets
import ProtoJava.Proofs.Java.Pages

/-! # Texts of statements

Statements are written line by line, as they are and wherever they stand. A page drops blank lines
only, so what is written later leaves their text as it is.
-/

namespace ProtoJava.Java

/-- A text is found in another one. -/
def Within (part text : String) : Prop :=
  ∃ before after, text = before ++ part ++ after

theorem Within.after {a b : String} (h : Within a b) (c : String) : Within a (c ++ b) := by
  obtain ⟨x, y, rfl⟩ := h
  exact ⟨c ++ x, y, by simp [String.append_assoc]⟩

/-- A line at a depth of nesting. -/
def lineText (depth : Nat) (text : String) : String :=
  String.ofList (List.replicate (4 * depth) ' ') ++ text ++ "\n"

mutual

/-- The lines of a statement, which is no blank line, comment or failure. -/
def Step.text (depth : Nat) : Step → String
  | .line text => lineText depth text
  | .annotated _ lead name trail => lineText depth (lead ++ name ++ trail)
  | .block header footer steps =>
    lineText depth header ++ textOf (depth + 1) steps ++ lineText depth footer
  | .body footer steps => textOf (depth + 1) steps ++ lineText depth footer
  | .blank | .comment _ | .fail _ => ""

/-- The lines of statements. -/
def textOf (depth : Nat) : List Step → String
  | [] => ""
  | s :: r => s.text depth ++ textOf depth r

end

/-- A text that is not empty and does not end with a line feed. -/
def Ended (text : String) : Prop :=
  text.toList.getLast?.any (· ≠ '\n')

mutual

/-- A step that writes lines with text in them only. -/
def Step.Plain : Step → Prop
  | .line text => Ended text
  | .annotated _ _ _ trail => Ended trail
  | .block header footer steps => Ended header ∧ Ended footer ∧ PlainAll steps
  | .body footer steps => Ended footer ∧ steps ≠ [] ∧ PlainAll steps
  | .blank | .comment _ | .fail _ => False

def PlainAll : List Step → Prop
  | [] => True
  | s :: r => s.Plain ∧ PlainAll r

end

section Lists

variable {a b : List Step} {s t : String}

theorem plainAll_iff : PlainAll a ↔ ∀ s ∈ a, s.Plain := by
  induction a with
  | nil => simp [PlainAll]
  | cons s a ih => simp [PlainAll, ih]

theorem PlainAll.append (ha : PlainAll a) (hb : PlainAll b) : PlainAll (a ++ b) := by
  rw [plainAll_iff, List.forall_mem_append]
  exact ⟨plainAll_iff.mp ha, plainAll_iff.mp hb⟩

theorem PlainAll.flatten {lists : List (List Step)} (h : ∀ steps ∈ lists, PlainAll steps) :
    PlainAll lists.flatten := by
  simp only [plainAll_iff] at h ⊢
  exact List.forall_mem_flatten.mpr h

theorem textOf_append (depth : Nat) (a b : List Step) :
    textOf depth (a ++ b) = textOf depth a ++ textOf depth b := by
  induction a with
  | nil => simp [textOf]
  | cons s a ih => simp [textOf, ih, String.append_assoc]

theorem Ended.append (s : String) (h : Ended t) : Ended (s ++ t) := by
  unfold Ended at h ⊢
  cases hl : t.toList.getLast? with
  | none => simp [hl] at h
  | some c => simpa [String.toList_append, List.getLast?_append, hl] using h

theorem PlainAll.braced (head : String) (h : PlainAll a) : PlainAll [braced head a] :=
  ⟨⟨Ended.append head rfl, rfl, h⟩, trivial⟩

theorem PlainAll.declared (path : Schema.Path) (lead name trail : String) (h : PlainAll a)
    (hne : a ≠ []) : PlainAll (declared path lead name trail a) :=
  ⟨Ended.append trail rfl, ⟨rfl, hne, h⟩, trivial⟩

theorem Ended.anchored (h : Ended t) (name : String) : Anchored name t := by
  obtain ⟨c, hc, hne⟩ := (Option.any_eq_true ..).mp h
  exact .inl ⟨c, List.mem_of_getLast? hc, by simpa using hne⟩

mutual

/-- A step that writes plain lines does not fail. -/
theorem sound_of_plain : ∀ s : Step, s.Plain → s.Sound
  | .line _, _ => trivial
  | .annotated _ _ name _, h => Ended.anchored h name
  | .block _ _ steps, h => soundAll_of_plain steps h.2.2
  | .body _ steps, h => soundAll_of_plain steps h.2.2
  | .blank, h | .comment _, h | .fail _, h => h.elim

theorem soundAll_of_plain : ∀ steps : List Step, PlainAll steps → SoundAll steps
  | [], _ => trivial
  | s :: r, h => ⟨sound_of_plain s h.1, soundAll_of_plain r h.2⟩

end

end Lists

/-- A text, last character first, that ends with a line feed, but with no empty line. -/
def Tight (cs : List Char) : Prop :=
  ∃ c r, cs = '\n' :: c :: r ∧ c ≠ '\n'

section Tight

variable {cs : List Char}

theorem Tight.append (h : Tight cs) (more : List Char) : Tight (cs ++ more) := by
  obtain ⟨c, r, rfl, hc⟩ := h
  exact ⟨c, r ++ more, rfl, hc⟩

theorem Tight.kept (h : Tight cs) : ∀ r, cs ≠ '\n' :: '\n' :: r := by
  obtain ⟨c, r, rfl, hc⟩ := h
  rintro r' he
  exact hc (List.cons.inj (List.cons.inj he).2).1

theorem Tight.dropBlankLines (h : Tight cs) (size : Nat) :
    Page.dropBlankLines cs size = (cs, size) := by
  rw [Page.dropBlankLines]
  exact fun r he => h.kept r he

theorem tight_lineText (depth : Nat) {text : String} (h : Ended text) :
    Tight (lineText depth text).toList.reverse := by
  obtain ⟨c, hc, hne⟩ := (Option.any_eq_true ..).mp h
  obtain ⟨r, hr⟩ := List.getLast?_eq_some_iff.mp hc
  refine ⟨c, r.reverse ++ List.replicate (4 * depth) ' ', ?_, by simpa using hne⟩
  simp [lineText, hr]

theorem tight_text (depth : Nat) {s : Step} (h : s.Plain) :
    Tight (s.text depth).toList.reverse := by
  cases s with
  | line text => exact tight_lineText depth h
  | annotated path lead name trail => exact tight_lineText depth (Ended.append _ h)
  | block header footer steps =>
    rw [Step.text, String.toList_append, List.reverse_append]
    exact (tight_lineText depth h.2.1).append _
  | body footer steps =>
    rw [Step.text, String.toList_append, List.reverse_append]
    exact (tight_lineText depth h.1).append _
  | blank => exact h.elim
  | comment text => exact h.elim
  | fail e => exact h.elim

theorem tight_textOf (depth : Nat) {steps : List Step} (h : PlainAll steps) (hne : steps ≠ []) :
    Tight (textOf depth steps).toList.reverse := by
  induction steps with
  | nil => exact absurd rfl hne
  | cons s r ih =>
    rw [textOf, String.toList_append, List.reverse_append]
    rcases eq_or_ne r [] with rfl | hr
    · exact tight_text depth h.1
    · exact (ih h.2 hr).append _

end Tight

namespace Page

/-- A page is another one with a text after it. -/
structure Adds (p q : Page) (text : String) : Prop where
  written : q.written = text.toList.reverse ++ p.written
  depth : q.depth = p.depth

section Adds

variable {p q r : Page} {s t : String}

theorem Adds.refl (p : Page) : Adds p p "" :=
  ⟨rfl, rfl⟩

theorem Adds.trans (h : Adds p q s) (h' : Adds q r t) : Adds p r (s ++ t) :=
  ⟨by simp [h'.written, h.written], h'.depth.trans h.depth⟩

theorem line_adds (p : Page) (h : Ended t) : Adds p (p.line t) (lineText p.depth t) := by
  have hne : t.isEmpty = false := by
    by_contra he
    obtain rfl := String.isEmpty_iff.mp (by simpa using he)
    exact absurd h (by simp [Ended])
  constructor
  · simp [line, hne, indent, put, lineText]
  · simp [line, hne, indent, put]

theorem annotated_adds (p : Page) (path : Schema.Path) (lead name trail : String) :
    Adds p (p.annotated path lead name trail) (lineText p.depth (lead ++ name ++ trail)) := by
  constructor
  · simp [annotated, indent, put, lineText]
  · simp [annotated, indent, put]

/-- Steps one level deeper, and a line after them. -/
theorem close_adds (p : Page) (ht : Tight q.written) (h : Adds p.deeper q s) (hf : Ended t) :
    Adds p (q.shallower.close t) (s ++ lineText p.depth t) := by
  have hdepth : q.shallower.depth = p.depth := by simp [shallower, h.depth, deeper]
  have hclose : q.shallower.close t = q.shallower.line t := by
    simp only [close, show q.shallower.written = q.written from rfl, ht.dropBlankLines]
    rfl
  have hup : Adds p q.shallower s := ⟨h.written, hdepth⟩
  rw [hclose, ← hdepth]
  exact hup.trans (line_adds _ hf)

end Adds

mutual

/-- What a step that writes plain lines adds to a page. -/
theorem write_adds (p : Page) : ∀ s : Step, s.Plain → Adds p (p.write s).1 (s.text p.depth)
  | .line text, h => by
    rw [write, Step.text]
    exact line_adds p h
  | .annotated path lead name trail, _ => by
    rw [write, Step.text]
    exact annotated_adds p path lead name trail
  | .block header footer steps, h => by
    obtain ⟨hh, hf, hs⟩ := h
    have hheader := line_adds p hh
    have hinner := writeAll_adds (p.line header).deeper steps hs
    rw [show (p.line header).deeper.depth = p.depth + 1 from congrArg (· + 1) hheader.depth]
      at hinner
    -- No blank line is there to be dropped: the last line is one of the steps, or the header.
    have htight : Tight ((p.line header).deeper.writeAll steps).1.written := by
      rw [hinner.written]
      rcases eq_or_ne steps [] with rfl | hne
      · rw [textOf, String.toList_empty, List.reverse_nil, List.nil_append,
          show (p.line header).deeper.written = (p.line header).written from rfl, hheader.written]
        exact (tight_lineText _ hh).append _
      · exact (tight_textOf _ hs hne).append _
    have hclose := close_adds (p.line header) htight hinner hf
    rw [write_block, Step.text, String.append_assoc]
    rw [hheader.depth] at hclose
    exact hheader.trans hclose
  | .body footer steps, h => by
    obtain ⟨hf, hne, hs⟩ := h
    have hinner := writeAll_adds p.deeper steps hs
    have htight : Tight (p.deeper.writeAll steps).1.written := by
      rw [hinner.written]
      exact (tight_textOf _ hs hne).append _
    rw [write_body, Step.text]
    exact close_adds p htight hinner hf
  | .blank, h | .comment _, h | .fail _, h => h.elim

theorem writeAll_adds (p : Page) :
    ∀ steps : List Step, PlainAll steps → Adds p (p.writeAll steps).1 (textOf p.depth steps)
  | [], _ => by
    rw [writeAll, textOf]
    exact .refl p
  | s :: r, h => by
    have hs := write_adds p s h.1
    have hr := writeAll_adds (p.write s).1 r h.2
    rw [writeAll_cons p (write_succeeds p s (sound_of_plain s h.1)), textOf]
    rw [hs.depth] at hr
    exact hs.trans hr

end

/-- A page at a depth of nesting, on which the given text, last character first, comes first. -/
structure Extends (p : Page) (base : List Char) (depth : Nat) : Prop where
  written : base <:+ p.written
  depth : p.depth = depth

section Extends

variable {p : Page} {base : List Char} {d : Nat}

theorem Extends.put (h : p.Extends base d) (cs : List Char) : (p.put cs).Extends base d :=
  ⟨h.written.trans (List.suffix_append _ _), h.depth⟩

theorem Extends.indent (h : p.Extends base d) : p.indent.Extends base d :=
  h.put _

theorem Extends.line (h : p.Extends base d) (text : String) : (p.line text).Extends base d :=
  line_of_put (P := (Extends · base d)) Extends.put h text

theorem Extends.blank (h : p.Extends base d) : p.blank.Extends base d :=
  blank_of_put (P := (Extends · base d)) Extends.put h

theorem Extends.lines (h : p.Extends base d) (texts : List String) :
    (texts.foldl Page.line p).Extends base d :=
  lines_of_put (P := (Extends · base d)) Extends.put h texts

theorem Extends.annotated (h : p.Extends base d) (path : Schema.Path) (lead name trail : String) :
    (p.annotated path lead name trail).Extends base d := by
  have hname := (h.indent.put lead.toList).put name.toList
  have hmarked (marks) :
      Extends { (p.indent.put lead.toList).put name.toList with marks } base d :=
    ⟨hname.written, hname.depth⟩
  exact ((hmarked _).put _).put _

theorem Extends.deeper (h : p.Extends base d) : p.deeper.Extends base (d + 1) :=
  ⟨h.written, congrArg (· + 1) h.depth⟩

theorem Extends.shallower (h : p.Extends base (d + 1)) : p.shallower.Extends base d :=
  ⟨h.written, congrArg (· - 1) h.depth⟩

theorem Extends.close (h : p.Extends base d) (hb : ∀ r, base ≠ '\n' :: '\n' :: r)
    (footer : String) : (p.close footer).Extends base d := by
  have hdropped : Extends { p with
      written := (dropBlankLines p.written p.size).1
      size := (dropBlankLines p.written p.size).2 } base d :=
    ⟨suffix_dropBlankLines h.written hb, h.depth⟩
  exact hdropped.line footer

end Extends

mutual

/-- Whatever is written, what a page starts with stays if there is no blank line at its end. -/
theorem write_extends {base : List Char} (hb : ∀ r, base ≠ '\n' :: '\n' :: r) {p : Page} {d : Nat}
    (h : p.Extends base d) : ∀ s : Step, (p.write s).1.Extends base d
  | .line text => by
    rw [write]
    exact h.line text
  | .blank => by
    rw [write]
    exact h.blank
  | .comment text => by
    rw [write]
    exact h.lines _
  | .annotated path lead name trail => by
    rw [write]
    exact h.annotated path lead name trail
  | .block header footer steps => by
    rw [write_block]
    exact (writeAll_extends hb (h.line header).deeper steps).shallower.close hb footer
  | .body footer steps => by
    rw [write_body]
    exact (writeAll_extends hb h.deeper steps).shallower.close hb footer
  | .fail _ => by
    rw [write]
    exact h

theorem writeAll_extends {base : List Char} (hb : ∀ r, base ≠ '\n' :: '\n' :: r) {p : Page}
    {d : Nat} (h : p.Extends base d) : ∀ steps : List Step, (p.writeAll steps).1.Extends base d
  | [] => h
  | s :: r => by
    have hs := write_extends hb h s
    rw [writeAll]
    split
    · next hq => rwa [hq] at hs
    · next hq =>
      rw [hq] at hs
      exact writeAll_extends hb hs r

end

end Page

end ProtoJava.Java
