import ProtoJava.Proofs.Java.Imports

/-! # Names of library types

Sources call classes of `java.util` by their simple names. These names stay free for them, as long
as nothing else is declared or imported by one.
-/

namespace ProtoJava.Java

open Naming (libraryTypes)

/-- A class that is called like a library type is one of `java.util`, or in no library package. -/
def ClassName.Harmless (c : ClassName) : Prop :=
  c.outermost ∈ libraryTypes → c.package = "java.util" ∨ c.package ∉ libraryPackages

/-- A class of `java.util` that is called by the name of a library type. -/
structure ClassName.IsUtility (c : ClassName) : Prop where
  package : c.package = "java.util"
  outermost : c.outermost ∈ libraryTypes

theorem ClassName.IsUtility.harmless {c : ClassName} (h : c.IsUtility) : c.Harmless :=
  fun _ => Or.inl h.package

theorem isReserved_of_mem_libraryTypes {name : String} (h : name ∈ libraryTypes) :
    Naming.isReserved name := by
  simp [Naming.isReserved, h]

theorem not_mem_libraryTypes {name : String} (h : Naming.isReserved name = false) :
    name ∉ libraryTypes := fun hl =>
  Bool.noConfusion (h.symm.trans (isReserved_of_mem_libraryTypes hl))

namespace Imports

/-- Names of library types mean classes of `java.util`, if they mean anything. -/
structure Unshadowed (i : Imports) : Prop where
  nested : ∀ n ∈ i.nested, n ∉ libraryTypes
  own : i.package ≠ "java.util" → ∀ n ∈ i.own, n ∉ libraryTypes
  imported : ∀ e ∈ i.imported, e.1 ∈ libraryTypes → e.2 = "java.util" ++ "." ++ e.1

/-- The name of a class means this class, of the package or imported. -/
structure Binds (i : Imports) (c : ClassName) : Prop where
  visible : c.outermost ∉ i.nested
  bound : c.package = i.package ∧ c.outermost ∈ i.own ∨
    c.package ≠ i.package ∧ entry c ∈ i.imported

variable {i : Imports} {c c' : ClassName} {cs : List ClassName}

/-- A class of another package that a name means has an import statement. -/
theorem Binds.mem_lines (h : i.Binds c) (hp : c.package ≠ i.package) :
    importLine c.package c.outermost ∈ i.lines := by
  have hin : entry c ∈ i.imported := (h.bound.resolve_left fun hown => hp hown.1).2
  exact Imports.mem_lines.mpr ⟨entry c, hin, rfl⟩

section Reference

theorem reference_package (i : Imports) (c : ClassName) :
    (i.reference c).2.package = i.package := by
  have h := reference_answers i c
  generalize i.reference c = answer at h ⊢
  cases h <;> rfl

/-- Calling a class that is harmless takes no name of a library type away. -/
theorem Unshadowed.reference (h : i.Unshadowed) (hc : c.Harmless) :
    (i.reference c).2.Unshadowed := by
  -- Past the guard against reserved names, a class called like a library type is of `java.util`.
  have hutil : i.Free c → c.outermost ∈ libraryTypes → c.package = "java.util" := fun hf hn =>
    (hc hn).resolve_right (not_not_intro (hf.library (isReserved_of_mem_libraryTypes hn)))
  have ha := reference_answers i c
  generalize i.reference c = answer at ha ⊢
  cases ha with
  | qualified => exact h
  | own hf hp =>
    constructor
    case nested => exact h.nested
    case own =>
      intro hne
      refine List.forall_mem_cons.mpr ⟨fun hn => hne ?_, h.own hne⟩
      exact hp.symm.trans (hutil hf hn)
    case imported => exact h.imported
  | lang => exact h
  | known => exact h
  | imported hf =>
    constructor
    case nested => exact h.nested
    case own => exact h.own
    case imported =>
      refine List.forall_mem_cons.mpr ⟨fun hn => ?_, h.imported⟩
      rw [entry, hutil hf hn]

theorem Binds.reference (h : i.Binds c) (c' : ClassName) : (i.reference c').2.Binds c := by
  have ha := reference_answers i c'
  generalize i.reference c' = answer at ha ⊢
  cases ha with
  | qualified => exact h
  | own => exact ⟨h.visible, h.bound.imp_left fun hown => ⟨hown.1, List.mem_cons_of_mem _ hown.2⟩⟩
  | lang => exact h
  | known => exact h
  | imported =>
    exact ⟨h.visible, h.bound.imp_right fun hin => ⟨hin.1, List.mem_cons_of_mem _ hin.2⟩⟩

theorem Unshadowed.not_taken (h : i.Unshadowed) (hc : c.IsUtility) : ¬ i.Taken c := by
  intro ht
  cases ht with
  | nested hn => exact h.nested _ hn hc.outermost
  | reserved _ hp =>
    rw [hc.package] at hp
    exact absurd hp (by decide)
  | imported hl hf =>
    refine hf ?_
    rw [entry, hc.package]
    exact h.imported _ (mem_of_lookup hl) hc.outermost
  | own hp ho => exact h.own (hc.package ▸ Ne.symm hp) _ ho hc.outermost

/-- A class of `java.util` is called by its name within the package, which then means it. -/
theorem Unshadowed.reference_utility (h : i.Unshadowed) (hc : c.IsUtility) :
    (i.reference c).1 = c.relative ∧ (i.reference c).2.Binds c := by
  have ha := reference_answers i c
  generalize i.reference c = answer at ha ⊢
  cases ha with
  | qualified htaken => exact absurd htaken (h.not_taken hc)
  | own hf hp => exact ⟨rfl, hf.visible, Or.inl ⟨hp, List.mem_cons_self⟩⟩
  | lang _ hp =>
    rw [hc.package] at hp
    exact absurd hp (by decide)
  | known hf hp hl => exact ⟨rfl, hf.visible, Or.inr ⟨hp, mem_of_lookup hl⟩⟩
  | imported hf hp => exact ⟨rfl, hf.visible, Or.inr ⟨hp, List.mem_cons_self⟩⟩

end Reference

section Run

theorem referenceAll_package (i : Imports) (cs : List ClassName) :
    (i.referenceAll cs).2.package = i.package := by
  induction cs generalizing i with
  | nil => rfl
  | cons c cs ih => exact (ih _).trans (reference_package i c)

theorem Unshadowed.referenceAll (h : i.Unshadowed) (hcs : ∀ c ∈ cs, c.Harmless) :
    (i.referenceAll cs).2.Unshadowed := by
  induction cs generalizing i with
  | nil => exact h
  | cons c cs ih =>
    rw [List.forall_mem_cons] at hcs
    exact ih (h.reference hcs.1) hcs.2

/-- In whatever order harmless classes are called, those of `java.util` are called by their names
within the package. -/
theorem Unshadowed.referenceAll_utilities (h : i.Unshadowed) (hcs : ∀ c ∈ cs, c.Harmless) :
    List.Forall₂ (fun c name => c.IsUtility → name = c.relative) cs (i.referenceAll cs).1 := by
  induction cs generalizing i with
  | nil => exact .nil
  | cons c cs ih =>
    rw [List.forall_mem_cons] at hcs
    exact .cons (fun hc => (h.reference_utility hc).1) (ih (h.reference hcs.1) hcs.2)

end Run

end Imports

end ProtoJava.Java
