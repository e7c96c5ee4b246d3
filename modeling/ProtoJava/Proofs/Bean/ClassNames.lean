import ProtoJava.Proofs.Paths

/-! # Names of the classes in beans

The names of the classes that a source file with beans declares were granted, at the top of the
schema file or in a message. So none of them is reserved.
-/

namespace ProtoJava.Bean

open Mapping
open Naming (isReserved)

/-- Names that are not reserved. -/
def Unreserved (names : List String) : Prop :=
  ∀ x ∈ names, isReserved x = false

theorem mem_namesOfAll {os : List Outline} {x : String} :
    x ∈ Outline.namesOfAll os ↔ ∃ o ∈ os, x = o.className ∨ x ∈ o.innerNames := by
  induction os with
  | nil => simp [Outline.namesOfAll]
  | cons o os ih =>
    rw [Outline.namesOfAll, List.mem_cons, List.mem_append, ih, List.exists_mem_cons_iff, or_assoc]

/-- The classes of a draft have names of the contents of its file, of its wrapper, or of classes in
those of messages. -/
theorem Contents.drafts_unreserved {c : Contents} {ctx : Context} {wrapper : Option String}
    (hnames : Unreserved (c.names ++ wrapper.toList))
    (hinner : ∀ o ∈ c.messages, Unreserved o.innerNames) :
    ∀ d ∈ c.drafts ctx wrapper, Unreserved (d.className :: d.nested) := by
  simp only [Contents.names, Unreserved, List.forall_mem_append, List.forall_mem_map] at hnames
  obtain ⟨⟨⟨hmessages, henums⟩, hholder⟩, hwrapper⟩ := hnames
  intro d hd
  cases wrapper with
  | none =>
    simp only [Contents.drafts, List.mem_append, List.mem_map] at hd
    rcases hd with (⟨o, ho, rfl⟩ | ⟨e, he, rfl⟩) | ⟨h, hh, rfl⟩
    · exact List.forall_mem_cons.mpr ⟨hmessages o ho, hinner o ho⟩
    · exact List.forall_mem_cons.mpr ⟨henums e he, by simp⟩
    · exact List.forall_mem_cons.mpr ⟨hholder h hh, by simp⟩
  | some wrapper =>
    dsimp only [Contents.drafts] at hd
    split at hd
    · exact absurd hd List.not_mem_nil
    · obtain rfl := List.mem_singleton.mp hd
      simp only [Unreserved, List.forall_mem_cons, List.forall_mem_append, List.forall_mem_map]
      refine ⟨hwrapper wrapper List.mem_cons_self, ⟨fun x hx => ?_, henums⟩, hholder⟩
      obtain ⟨o, ho, rfl | hx⟩ := mem_namesOfAll.mp hx
      · exact hmessages o ho
      · exact hinner o ho x hx

section Granted

variable {raws : List Descriptor.File} {g : Schema.Graph} {options : Options}
  {generate : List Nat} {file i : Nat}

theorem innerNames_unreserved {id : Schema.MessageId} (hl : (g.file id.file).Linked)
    (hi : id.index < (g.file id.file).messages.length) :
    Unreserved ((Naming.allocate options g generate).innerNames g id) := by
  intro x hx
  rw [Naming.innerNames_eq hl hi] at hx
  exact ((Naming.innerRoles_distinct options.layout hl hi).2 x hx).2

variable (hg : Schema.Graph.build raws = .ok g)

include hg

/-- No class in the class of a message has a reserved name. -/
theorem Outline.innerNames_unreserved {o : Outline}
    (h : Outline.of (Context.prepare options g generate) file i = .ok o)
    (hi : i < (g.file file).messages.length) : Unreserved o.innerNames := by
  induction i using Outline.of.induct (Context.prepare options g generate) file
    generalizing o with
  | case1 i ih =>
    obtain ⟨shape, extensions, nested, hshape, -, hnested, rfl⟩ := Outline.of_ok h
    have hown : Unreserved ((Naming.allocate options g generate).innerNames g ⟨file, i⟩) :=
      Bean.innerNames_unreserved (Schema.Graph.build_linked hg file) hi
    simp only [Naming.Allocation.innerNames, Unreserved, List.forall_mem_append] at hown
    obtain ⟨⟨hmessages, henums⟩, hunions⟩ := hown
    have hmessage : shape.message = g.message ⟨file, i⟩ := Shape.of_message hshape
    have hnames : shape.names = (Naming.allocate options g generate).message ⟨file, i⟩ :=
      Shape.of_names hshape
    intro x hx
    rw [Outline.innerNames, List.mem_append, List.mem_append] at hx
    rcases hx with (hx | hx) | hx
    · obtain ⟨u?, hu, hx⟩ := List.mem_flatMap.mp hx
      cases u? with
      | none => exact absurd hx List.not_mem_nil
      | some u =>
        rw [hnames] at hu
        exact hunions x (List.mem_flatMap.mpr ⟨u, List.reduceOption_mem_iff.mpr hu, hx⟩)
    · rw [hmessage, List.map_map] at hx
      exact henums x hx
    · obtain ⟨o, ho, hx⟩ := mem_namesOfAll.mp hx
      obtain ⟨n, hn, hok⟩ := forall₂_exists_right hnested ho
      rcases hx with rfl | hx
      · obtain ⟨hn, hplain⟩ := List.mem_filter.mp hn
        rw [← Outline.of_className hok]
        refine hmessages _ (List.mem_map_of_mem (List.mem_filter.mpr ⟨hn, ?_⟩))
        exact (Bool.and_eq_true_iff.mp hplain).1
      · exact ih n hn hok (lt_of_mem_nestedClasses hn).2 x hx

/-- No source file with beans declares a class with a reserved name. -/
theorem drafts_unreserved {c : Contents} (hfile : file < g.files.length)
    (hc : Contents.of (Context.prepare options g generate) file = .ok c) :
    ∀ d ∈ c.drafts (Context.prepare options g generate)
        ((Naming.allocate options g generate).file file).wrapperClass,
      Unreserved (d.className :: d.nested) := by
  have hl := Schema.Graph.build_linked hg file
  refine Contents.drafts_unreserved ?names ?inner
  case names =>
    have htop : Naming.Distinct [] ((Naming.allocate options g generate).topNames g file) :=
      Naming.topNames_distinct hl hfile
    rw [Contents.names_eq hc]
    exact fun x hx => (htop.2 x hx).2
  case inner =>
    obtain ⟨-, houtlines, -⟩ := Contents.of_ok hc
    intro o ho
    obtain ⟨i, hi, hok⟩ := forall₂_exists_right houtlines ho
    obtain ⟨hi, -⟩ := Schema.File.mem_topMessages_iff.mp (List.mem_of_mem_filter hi)
    exact Outline.innerNames_unreserved hg hok hi

end Granted

end ProtoJava.Bean
