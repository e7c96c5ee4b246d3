import ProtoJava.Proofs.Java.Spans

/-! # Rows of steps

The lines with text that steps write, each at its depth of nesting, up to a failure. A failure ends
the blocks around it, so every block that was opened has its last row, and what comes after the
failing step is as if it were not there.
-/

namespace ProtoJava.Java

section Rows

/-- What a row is for. -/
inductive Role
  | plain
  /-- The first row of a block, which `footer` ends. -/
  | header (footer : String)
  /-- The row after nested steps. -/
  | footer
deriving DecidableEq

/-- A line with text, at a depth of nesting. -/
structure Row where
  depth : Nat
  text : String
  role : Role := .plain
deriving DecidableEq

/-- The characters of a row. -/
def Row.line (r : Row) : List Char :=
  List.replicate (4 * r.depth) ' ' ++ r.text.toList

mutual

/-- The rows of a step, up to its first failure. -/
def Step.rows (depth : Nat) : Step → List Row
  | .line text => [{ depth, text }]
  | .comment text => (lineComments text).map fun text => { depth, text }
  | .annotated _ lead name trail => [{ depth, text := lead ++ name ++ trail }]
  | .block header footer steps =>
    ⟨depth, header, .header footer⟩ :: (rowsOf (depth + 1) steps ++ [⟨depth, footer, .footer⟩])
  | .body footer steps => rowsOf (depth + 1) steps ++ [⟨depth, footer, .footer⟩]
  | .blank | .fail _ => []

/-- The rows of steps, up to the first failure. -/
def rowsOf (depth : Nat) : List Step → List Row
  | [] => []
  | s :: r => s.rows depth ++ if s.fails then [] else rowsOf depth r

end

/-- Every header has its footer at its own depth, with deeper rows only between them. -/
def Closed (rows : List Row) : Prop :=
  ∀ before after depth text footer, rows = before ++ ⟨depth, text, .header footer⟩ :: after →
    ∃ inner rest, after = inner ++ ⟨depth, footer, .footer⟩ :: rest ∧ ∀ r ∈ inner, depth < r.depth

variable {a b rows : List Row} {d : Nat}

theorem closed_of_not_header (h : ∀ r ∈ rows, ∀ footer, r.role ≠ .header footer) :
    Closed rows := by
  rintro before after depth text footer rfl
  exact absurd rfl (h ⟨depth, text, .header footer⟩ (by simp) footer)

theorem Closed.append (ha : Closed a) (hb : Closed b) : Closed (a ++ b) := by
  intro before after depth text footer h
  obtain ⟨x, rfl, hx⟩ | ⟨x, hax, hx⟩ := List.append_eq_append_iff.mp h
  · exact hb x after depth text footer hx
  · obtain ⟨rfl, rfl⟩ | ⟨y, rfl, rfl⟩ := List.cons_eq_append_iff.mp hx
    · exact hb [] after depth text footer rfl
    · obtain ⟨inner, rest, rfl, hinner⟩ := ha before y depth text footer hax
      exact ⟨inner, rest ++ b, by simp, hinner⟩

theorem Closed.footed (h : Closed rows) (depth : Nat) (footer : String) :
    Closed (rows ++ [⟨depth, footer, .footer⟩]) := by
  apply h.append
  apply closed_of_not_header
  simp

/-- A header is closed by its footer if nothing between them is as shallow as they are. -/
theorem Closed.block (h : Closed rows) (hdeep : ∀ r ∈ rows, d < r.depth) (header footer : String) :
    Closed (⟨d, header, .header footer⟩ :: (rows ++ [⟨d, footer, .footer⟩])) := by
  intro before after depth text footer' he
  obtain ⟨rfl, hhead⟩ | ⟨x, rfl, hx⟩ := List.cons_eq_append_iff.mp he
  · injection hhead with hrow hafter
    injection hrow with hdepth htext hrole
    injection hrole with hfooter
    subst hdepth hfooter
    exact ⟨rows, [], hafter, hdeep⟩
  · exact h.footed d footer x after depth text footer' hx

theorem le_depth_footed {inner : List Row} (h : ∀ r ∈ inner, d < r.depth) (footer : String) :
    ∀ r ∈ inner ++ [⟨d, footer, .footer⟩], d ≤ r.depth := by
  rw [List.forall_mem_append, List.forall_mem_singleton]
  exact ⟨fun r hr => (h r hr).le, le_rfl⟩

mutual

theorem Step.le_depth (d : Nat) : ∀ s : Step, ∀ r ∈ s.rows d, d ≤ r.depth
  | .line _ | .annotated .. => by simp [Step.rows]
  | .comment _ => by simp [Step.rows]
  | .block header footer steps => by
    rw [Step.rows, List.forall_mem_cons]
    exact ⟨le_rfl, le_depth_footed (le_depth_rowsOf (d + 1) steps) footer⟩
  | .body footer steps => by
    rw [Step.rows]
    exact le_depth_footed (le_depth_rowsOf (d + 1) steps) footer
  | .blank | .fail _ => by simp [Step.rows]

theorem le_depth_rowsOf (d : Nat) : ∀ steps, ∀ r ∈ rowsOf d steps, d ≤ r.depth
  | [] => by simp [rowsOf]
  | s :: rest => by
    rw [rowsOf, List.forall_mem_append]
    refine ⟨s.le_depth d, ?_⟩
    split
    · simp
    · exact le_depth_rowsOf d rest

end

mutual

/-- Every block that steps open is closed, also if they fail. -/
theorem Step.closed_rows (d : Nat) : ∀ s : Step, Closed (s.rows d)
  | .line _ | .annotated .. => closed_of_not_header (by simp [Step.rows])
  | .comment _ => closed_of_not_header (by simp [Step.rows])
  | .block header footer steps => by
    rw [Step.rows]
    exact (closed_rowsOf (d + 1) steps).block (le_depth_rowsOf (d + 1) steps) header footer
  | .body footer steps => by
    rw [Step.rows]
    exact (closed_rowsOf (d + 1) steps).footed d footer
  | .blank | .fail _ => closed_of_not_header (by simp [Step.rows])

theorem closed_rowsOf (d : Nat) : ∀ steps, Closed (rowsOf d steps)
  | [] => closed_of_not_header (by simp [rowsOf])
  | s :: r => by
    rw [rowsOf]
    apply (s.closed_rows d).append
    split
    · exact closed_of_not_header (by simp)
    · exact closed_rowsOf d r

end

theorem closed_flatMap_rows (d : Nat) (steps : List Step) :
    Closed (steps.flatMap (Step.rows d)) := by
  induction steps with
  | nil => exact closed_of_not_header (by simp)
  | cons s steps ih =>
    rw [List.flatMap_cons]
    exact (s.closed_rows d).append ih

end Rows

section Cut

mutual

/-- A step without the steps that come after a failing one next to them. -/
def Step.cut : Step → Step
  | .block header footer steps => .block header footer (cutAll steps)
  | .body footer steps => .body footer (cutAll steps)
  | .line text => .line text
  | .blank => .blank
  | .comment text => .comment text
  | .annotated path lead name trail => .annotated path lead name trail
  | .fail e => .fail e

/-- Steps up to the first one that fails, which is cut as well. -/
def cutAll : List Step → List Step
  | [] => []
  | s :: r => s.cut :: if s.fails then [] else cutAll r

end

mutual

/-- What comes after a failing step is not written. -/
theorem Page.write_cut (p : Page) : ∀ s : Step, p.write s.cut = p.write s
  | .block header footer steps => by
    rw [Step.cut, write_block, write_block, writeAll_cutAll]
  | .body footer steps => by
    rw [Step.cut, write_body, write_body, writeAll_cutAll]
  | .line _ | .blank | .comment _ | .annotated .. | .fail _ => by
    rw [Step.cut]

theorem Page.writeAll_cutAll (p : Page) : ∀ steps, p.writeAll (cutAll steps) = p.writeAll steps
  | [] => rfl
  | s :: r => by
    have hfails : s.cut.fails = s.fails := by
      rw [← p.write_fails, ← p.write_fails, write_cut]
    rw [cutAll, writeAll_cons_eq, writeAll_cons_eq, hfails, write_cut]
    split
    · rfl
    · exact writeAll_cutAll _ r

end

theorem Page.writeEach_cut (p : Page) (steps : List Step) :
    p.writeEach (steps.map Step.cut) = p.writeEach steps := by
  rw [writeEach, writeEach, List.foldl_map]
  simp only [write_cut]

end Cut

end ProtoJava.Java
