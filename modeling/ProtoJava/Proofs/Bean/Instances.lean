import ProtoJava.Proofs.Bean.Mentions
import ProtoJava.Proofs.Bean.Programs
import ProtoJava.Proofs.Mapping.Calls

/-! # New instances

A field of a bean that begins as a new instance is written with the simple name of the class,
whatever it has been answered to be called. When all of the source file is written, this name means
the class.
-/

namespace ProtoJava.Bean

open Java
open Mapping

/-- A field of a message begins as a new instance of a class. -/
def Outline.Constructs (ctx : Context) (c : ClassName) : Outline → Prop
  | .node shape _ _ _ => ∃ m, Item.field m ∈ shape.items ∧
      m.property.initializer ctx m.names.defaultConst = Property.newInstance c

/-- The field that an item is, if it is one. -/
def field? : Item → Option Member
  | .field m => some m
  | .union _ => none

/-- The fields of a message that are no members of unions. -/
def Outline.fields : Outline → List Member
  | .node shape _ _ _ => shape.items.filterMap field?

theorem Outline.constructs_of_mem {ctx : Context} {c : ClassName} {top : Outline} {m : Member}
    (hm : m ∈ top.fields)
    (hi : m.property.initializer ctx m.names.defaultConst = Property.newInstance c) :
    top.Constructs ctx c := by
  cases top with
  | node shape extensions enums nested =>
    obtain ⟨item, hitem, hfield⟩ := List.mem_filterMap.mp hm
    cases item with
    | union u => exact absurd hfield nofun
    | field m' =>
      obtain rfl := Option.some.inj hfield
      exact ⟨m', hitem, hi⟩

/-- The outlines whose classes are in each of the source files with the beans of a file. -/
def Contents.shares (c : Contents) : Option String → List (List Outline)
  | none => c.messages.map ([·]) ++ c.enums.map (fun _ => []) ++ c.holder.toList.map fun _ => []
  | some _ =>
    if c.messages.isEmpty && c.enums.isEmpty && c.file.extensions.isEmpty then []
    else [c.messages]

theorem utilities_harmless : ∀ c ∈ utilities, c.Harmless :=
  fun _ h => (isUtility_of_mem h).harmless

section Texts

variable {ctx : Context} {c : ClassName} (hc : c ∈ utilities) (f : Schema.File)

include hc

theorem newInstance_binding : Binding c (Property.newInstance c) :=
  (Binding.refer (isUtility_of_mem hc)).before fun _ => .pure _

theorem itemSteps_binding {m : Member} (hm : m.Holds (ctx.Admits ClassName.Harmless))
    (hi : m.property.initializer ctx m.names.defaultConst = Property.newInstance c) :
    Binding c (itemSteps ctx f (.field m)) := by
  have hfield : Binding c (fieldSteps ctx f m) := by
    refine .after (Property.type_mentions utilities_harmless hm) fun _ => ?_
    rw [hi]
    exact (newInstance_binding hc).before fun _ => .pure _
  exact hfield.before fun _ => .pure _

theorem memberSteps_binding {s : Shape} (hs : s.Holds (ctx.Admits ClassName.Harmless))
    (extensions : List Extension) {m : Member} (hm : Item.field m ∈ s.items)
    (hi : m.property.initializer ctx m.names.defaultConst = Property.newInstance c) :
    Binding c (memberSteps ctx f s extensions) := by
  have hitems : Binding c (s.items.mapM (itemSteps ctx f)) :=
    Binding.mapM hm (itemSteps_binding hc f (hs.items _ hm) hi)
      fun i hi => itemSteps_mentions f utilities_harmless (hs.items i hi)
  exact memberSteps_of_items (R := Binding c) f utilities_harmless .before hs extensions hitems

omit hc in
theorem nestedSteps_binding {os : List Outline}
    (hos : ∀ o ∈ os, o.Holds (ctx.Admits ClassName.Harmless)) {o : Outline} (ho : o ∈ os)
    (h : Binding c (messageSteps ctx f "public static " o)) : Binding c (nestedSteps ctx f os) := by
  induction os with
  | nil => exact absurd ho List.not_mem_nil
  | cons o' os ih =>
    rw [List.forall_mem_cons] at hos
    unfold nestedSteps
    rcases List.mem_cons.mp ho with rfl | ho
    · refine h.before fun _ => ?_
      exact .bind (nestedSteps_mentions f utilities_harmless os hos.2) fun _ => .pure _
    · refine .after (messageSteps_mentions f utilities_harmless _ o' hos.1) fun _ => ?_
      exact (ih hos.2 ho).before fun _ => .pure _

theorem messageSteps_binding {o top : Outline} (h : o.Inside top) (ho : o.Constructs ctx c)
    (htop : top.Holds (ctx.Admits ClassName.Harmless)) (modifiers : String) :
    Binding c (messageSteps ctx f modifiers top) := by
  induction h generalizing modifiers with
  | self =>
    obtain ⟨hs, hn⟩ := htop
    obtain ⟨m, hm, hi⟩ := ho
    unfold messageSteps
    refine (memberSteps_binding hc f hs _ hm hi).before fun _ => ?_
    exact .bind (nestedSteps_mentions f utilities_harmless _ hn) fun _ => .pure _
  | nested hmem _ ih =>
    obtain ⟨hs, hn⟩ := htop
    unfold messageSteps
    refine .after (memberSteps_mentions f utilities_harmless hs _) fun _ => ?_
    exact (nestedSteps_binding f hn hmem (ih (hn _ hmem) _)).before fun _ => .pure _

omit hc in
/-- Each source file with beans leaves the names of the classes bound that its fields begin as new
instances of. -/
theorem Contents.drafts_binding {c : Contents}
    (h : ∀ top ∈ c.messages, top.Holds (ctx.Admits ClassName.Harmless)) (wrapper : Option String) :
    List.Forall₂ (fun d share => ∀ u ∈ utilities, ∀ top ∈ share, ∀ o : Outline, o.Inside top →
      o.Constructs ctx u → Binding u d.steps) (c.drafts ctx wrapper) (c.shares wrapper) := by
  cases wrapper with
  | none =>
    refine List.rel_append (List.rel_append ?messages ?enums) ?holder <;>
      rw [List.forall₂_map_left_iff, List.forall₂_map_right_iff, List.forall₂_same]
    case messages =>
      intro top htop u hu _ hmem o ho hx
      obtain rfl := List.mem_singleton.mp hmem
      exact messageSteps_binding hu c.file ho hx (h _ htop) _
    case enums => exact fun _ _ _ _ _ hmem => absurd hmem List.not_mem_nil
    case holder => exact fun _ _ _ _ _ hmem => absurd hmem List.not_mem_nil
  | some wrapper =>
    rw [Contents.drafts, Contents.shares]
    split
    · exact .nil
    · refine .cons (fun u hu top htop o ho hx => ?_) .nil
      have hnested := nestedSteps_binding c.file h htop
        (messageSteps_binding hu c.file ho hx (h top htop) _)
      exact hnested.before fun _ => .pure _

end Texts

end ProtoJava.Bean
