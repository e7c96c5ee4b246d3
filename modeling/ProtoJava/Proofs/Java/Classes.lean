import Mathlib.Tactic.SplitIfs
import ProtoJava.Proofs.Java.Imports
import ProtoJava.Proofs.Java.Scanning
import ProtoJava.Proofs.Naming.Packages

/-! # Names of classes in code

Whatever a class is called by, and whatever is imported for that, leaves the open brackets as they
are.
-/

namespace ProtoJava.Java

theorem neutral_empty : Neutral "" :=
  fun _ => .lit rfl

/-- Neutral texts with a neutral text between neighbours. -/
theorem neutral_joined {sep : String} (hs : Neutral sep) {texts : List String}
    (h : ∀ t ∈ texts, Neutral t) : Neutral (Text.joined sep texts) := by
  fun_induction Text.joined sep texts with
  | case1 => exact neutral_empty
  | case2 t => exact h t List.mem_cons_self
  | case3 s t r ih =>
    rw [List.forall_mem_cons] at h
    exact (h.1.append hs).append (ih h.2)

theorem neutral_of_isPackageName {package : String}
    (h : Naming.isPackageName package.toList) : Neutral package := by
  refine neutral_of_plain fun c hc => ?_
  rcases Text.mem_pieces_of_mem '.' hc with rfl | ⟨p, hp, hcp⟩
  · decide
  · have hs := Naming.isSegment_iff.mp (Naming.isPackageName_iff.mp h p hp)
    exact isPlain_of (hs.2 c hcp) (by decide)

/-- A class whose package and names are neutral. -/
structure ClassName.Neutral (c : ClassName) : Prop where
  package : Java.Neutral c.package
  path : ∀ name ∈ c.path, Java.Neutral name

namespace ClassName

variable {c : ClassName}

theorem neutral_top {package name : String} (hp : Java.Neutral package) (hn : Java.Neutral name) :
    (top package name).Neutral :=
  ⟨hp, by simpa [top] using hn⟩

theorem Neutral.nested (h : c.Neutral) {name : String} (hn : Java.Neutral name) :
    (c.nested name).Neutral := by
  refine ⟨h.package, fun x hx => ?_⟩
  rcases List.mem_append.mp hx with hx | hx
  · exact h.path x hx
  · exact List.mem_singleton.mp hx ▸ hn

theorem Neutral.simple (h : c.Neutral) : Java.Neutral c.simple := by
  rw [ClassName.simple, List.getLastD_eq_getLast?]
  cases hl : c.path.getLast? with
  | none => exact neutral_empty
  | some name => exact h.path name (List.mem_of_getLast? hl)

theorem Neutral.outermost (h : c.Neutral) : Java.Neutral c.outermost := by
  rw [ClassName.outermost, List.headD_eq_head?_getD]
  cases hh : c.path.head? with
  | none => exact neutral_empty
  | some name => exact h.path name (List.mem_of_mem_head? hh)

theorem Neutral.relative (h : c.Neutral) : Java.Neutral c.relative :=
  neutral_joined (fun _ => .lit rfl) h.path

theorem Neutral.full (h : c.Neutral) : Java.Neutral (c.package ++ "." ++ c.outermost) :=
  (h.package.append fun _ => .lit rfl).append h.outermost

theorem Neutral.qualified (h : c.Neutral) : Java.Neutral c.qualified := by
  unfold ClassName.qualified
  split
  · exact h.relative
  · exact (h.package.append fun _ => .lit rfl).append h.relative

end ClassName

/-- Imports of neutral names. -/
def Imports.Tidy (i : Imports) : Prop :=
  ∀ e ∈ i.imported, Neutral e.2

namespace Imports

variable {i : Imports} {c : ClassName}

/-- A neutral class is called by a neutral name. -/
theorem reference_tidy (h : i.Tidy) (hc : c.Neutral) :
    Neutral (i.reference c).1 ∧ (i.reference c).2.Tidy := by
  have ha := reference_answers i c
  generalize i.reference c = answer at ha ⊢
  cases ha with
  | qualified => exact ⟨hc.qualified, h⟩
  | own => exact ⟨hc.relative, h⟩
  | lang => exact ⟨hc.relative, h⟩
  | known => exact ⟨hc.relative, h⟩
  | imported => exact ⟨hc.relative, List.forall_mem_cons.mpr ⟨hc.full, h⟩⟩

theorem neutral_of_mem_lines (h : i.Tidy) {line : String} (hl : line ∈ i.lines) : Neutral line := by
  obtain ⟨e, he, rfl⟩ := mem_lines.mp hl
  exact (Neutral.append (fun _ => .lit rfl) (h e he)).append fun _ => .lit rfl

end Imports

end ProtoJava.Java
