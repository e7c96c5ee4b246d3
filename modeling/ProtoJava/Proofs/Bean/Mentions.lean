import ProtoJava.Proofs.Drafts
import ProtoJava.Proofs.Mapping.Mentions

/-! # Classes named by beans

The sources with beans name the classes of the values in their messages, and classes of the Java
libraries. An outline that may be written anywhere is followed with everything nested in it.
-/

namespace ProtoJava.Bean

open Java
open Mapping

/-- An outline in which all values of messages satisfy `Q`. -/
inductive Outline.Holds (Q : Value → Prop) : Outline → Prop
  | node {shape : Shape} {extensions : List Extension} {enums : List EnumShape}
      {nested : List Outline} : shape.Holds Q → (∀ o ∈ nested, o.Holds Q) →
        (Outline.node shape extensions enums nested).Holds Q

/-- What the values in an outline satisfy follows from what else they satisfy. -/
theorem Outline.Holds.mp {Q R : Value → Prop} {o : Outline} (h : o.Holds Q)
    (hr : o.Holds fun v => Q v → R v) : o.Holds R := by
  induction h with
  | node hs _ ih =>
    obtain ⟨hsr, hnr⟩ := hr
    exact .node (hs.mp hsr) fun o ho => ih o ho (hnr o ho)

section Texts

variable {P : ClassName → Prop} {ctx : Context} (f : Schema.File)
  (hl : ∀ c ∈ utilities, P c)

section Unions

variable {u : Union} {v : Variant}

include hl

theorem shown_mentions (p : Property) (expression : String) :
    Mentions P (shown p expression) := by
  have harrays : Mentions P (refer arraysClass) := .refer (hl _ (by decide))
  unfold shown
  split
  · exact .pure _
  · exact .pure _
  · exact .bind harrays fun _ => .pure _
  · exact .bind harrays fun _ => .pure _
  · exact .pure _

theorem variantSteps_mentions (hv : v.member.Holds (ctx.Admits P)) :
    Mentions P (variantSteps ctx f u v) :=
  .bind (Property.type_mentions hl hv) fun _ => .bind (shown_mentions hl _ _) fun _ => .pure _

theorem unionSteps_mentions (hu : u.Holds (ctx.Admits P)) : Mentions P (unionSteps ctx f u) :=
  .bind (.mapM fun v hv => variantSteps_mentions f hl (hu v hv)) fun _ => .pure _

theorem accessorSteps_mentions (hv : v.member.Holds (ctx.Admits P)) :
    Mentions P (accessorSteps ctx u v) :=
  .bind (Property.type_mentions hl hv) fun _ =>
    .bind (Property.fallback_mentions hv _) fun _ => .pure _

theorem unionAccessorSteps_mentions (hu : u.Holds (ctx.Admits P)) :
    Mentions P (unionAccessorSteps ctx u) :=
  .bind (.mapM fun v hv => accessorSteps_mentions hl (hu v hv)) fun _ => .pure _

end Unions

section Messages

variable {s : Shape} {m : Member}

include hl

theorem fieldSteps_mentions (hm : m.Holds (ctx.Admits P)) : Mentions P (fieldSteps ctx f m) :=
  .bind (Property.type_mentions hl hm) fun _ =>
    .bind (Property.initializer_mentions hl hm _) fun _ => .pure _

theorem itemSteps_mentions {item : Item} (h : item.Holds (ctx.Admits P)) :
    Mentions P (itemSteps ctx f item) := by
  cases item with
  | field m => exact .bind (fieldSteps_mentions f hl h) fun _ => .pure _
  | union u => exact .bind (unionSteps_mentions f hl h) fun _ => .pure _

omit hl in
theorem defaultSteps_mentions (hm : m.Holds (ctx.Admits P)) :
    Mentions P (defaultSteps ctx m) := by
  unfold defaultSteps
  split
  · next constant value hc hvalue =>
    have hvalue : ctx.Admits P value := hm.value hvalue
    refine .bind (Property.defaultValue_mentions hm) fun literal => ?_
    split
    · exact .bind (Value.type_mentions hvalue false) fun _ => .pure _
    · exact .pure _
  · exact .pure _

theorem shownParts_mentions (s : Shape) (seen : List Nat) (members : List Member) :
    Mentions P (shownParts s seen members) := by
  induction members generalizing seen with
  | nil => exact .pure _
  | cons m members ih =>
    unfold shownParts
    split
    · split
      · split
        · exact ih _
        · exact .bind (ih _) fun _ => .pure _
      · exact ih _
    · exact .bind (shown_mentions hl _ _) fun _ => .bind (ih _) fun _ => .pure _

/-- What holds of a text that goes on from its items, whatever is named after them, holds of all
members if it holds of the items. -/
theorem memberSteps_of_items {R : {α : Type} → Referring α → Prop}
    (hR : ∀ {α β : Type} {x : Referring α} {f : α → Referring β}, R x →
      (∀ a, Mentions P (f a)) → R (x >>= f)) (hs : s.Holds (ctx.Admits P))
    (extensions : List Extension) (h : R (s.items.mapM (itemSteps ctx f))) :
    R (memberSteps ctx f s extensions) := by
  have hunions : ∀ u ∈ s.unions.filterMap id, u.Holds (ctx.Admits P) := by
    intro u hu
    obtain ⟨_, hmem, rfl⟩ := List.mem_filterMap.mp hu
    exact hs.unions u hmem
  refine hR h fun _ => ?_
  refine .bind (.mapM fun m hm => defaultSteps_mentions (hs.members m hm)) fun _ => ?_
  refine .bind (.mapM fun u hu => unionAccessorSteps_mentions hl (hunions u hu)) fun _ => ?_
  exact .bind (shownParts_mentions hl s [] s.members) fun _ => .pure _

theorem memberSteps_mentions (hs : s.Holds (ctx.Admits P)) (extensions : List Extension) :
    Mentions P (memberSteps ctx f s extensions) :=
  memberSteps_of_items f hl .bind hs extensions
    (.mapM fun i hi => itemSteps_mentions f hl (hs.items i hi))

end Messages

mutual

theorem messageSteps_mentions (hl : ∀ c ∈ utilities, P c)
    (modifiers : String) :
    ∀ o : Outline, o.Holds (ctx.Admits P) → Mentions P (messageSteps ctx f modifiers o)
  | .node shape extensions enums nested, h => by
    obtain ⟨hs, hn⟩ := h
    unfold messageSteps
    exact .bind (memberSteps_mentions f hl hs extensions) fun _ =>
      .bind (nestedSteps_mentions hl nested hn) fun _ => .pure _

theorem nestedSteps_mentions (hl : ∀ c ∈ utilities, P c) :
    ∀ os : List Outline, (∀ o ∈ os, o.Holds (ctx.Admits P)) → Mentions P (nestedSteps ctx f os)
  | [], _ => .pure _
  | o :: r, h => by
    rw [List.forall_mem_cons] at h
    unfold nestedSteps
    exact .bind (messageSteps_mentions hl "public static " o h.1) fun _ =>
      .bind (nestedSteps_mentions hl r h.2) fun _ => .pure _

end

include hl in
/-- All drafts name only the classes of values, and classes of `java.util`. -/
theorem Contents.drafts_mention_utilities {c : Contents}
    (hc : ∀ o ∈ c.messages, o.Holds (ctx.Admits P)) (wrapper : Option String) :
    ∀ d ∈ c.drafts ctx wrapper, Mentions P d.steps := by
  intro d hd
  cases wrapper with
  | none =>
    simp only [Contents.drafts, List.mem_append, List.mem_map] at hd
    rcases hd with (⟨o, ho, rfl⟩ | ⟨e, -, rfl⟩) | ⟨p, -, rfl⟩
    · exact messageSteps_mentions c.file hl "public " o (hc o ho)
    · exact .pure _
    · exact .pure _
  | some wrapper =>
    dsimp only [Contents.drafts] at hd
    split at hd
    · simp at hd
    · obtain rfl := List.mem_singleton.mp hd
      exact .bind (nestedSteps_mentions c.file hl c.messages hc) fun _ => .pure _

omit hl in
/-- All drafts name only the classes of values and of the Java libraries. -/
theorem Contents.drafts_mention (hl : ∀ c : ClassName, c.package ∈ libraryPackages → P c)
    {c : Contents} (hc : ∀ o ∈ c.messages, o.Holds (ctx.Admits P)) (wrapper : Option String) :
    ∀ d ∈ c.drafts ctx wrapper, Mentions P d.steps :=
  Contents.drafts_mention_utilities (fun c hm => hl c (package_of_mem_utilities hm)) hc wrapper

end Texts

section Outlines

variable {Q : Value → Prop} {ctx : Context} {file : Nat}

/-- What all fields of a graph become decides what an outline holds. -/
theorem Outline.of_holds (hq : ∀ i, ∀ f ∈ ((ctx.graph.file file).message i).fields, ∀ p,
      ctx.classify (some ((ctx.graph.file file).message i)) f = .ok p → ∀ v ∈ p.values, Q v)
    {o : Outline} {i : Nat} (h : Outline.of ctx file i = .ok o) : o.Holds Q := by
  induction i using Outline.of.induct ctx file generalizing o with
  | case1 i ih =>
    rw [Outline.of] at h
    simp only [bind_eq_ok_iff, pure_eq_ok_iff, mapM_eq_ok_iff] at h
    obtain ⟨shape, hshape, extensions, -, nested, hnested, rfl⟩ := h
    refine .node (Shape.of_holds hshape (hq i)) fun o ho => ?_
    obtain ⟨⟨n, hn⟩, -, hok⟩ := forall₂_exists_right hnested ho
    exact ih n hn hok

theorem Contents.of_holds (hq : ∀ i, ∀ f ∈ ((ctx.graph.file file).message i).fields, ∀ p,
      ctx.classify (some ((ctx.graph.file file).message i)) f = .ok p → ∀ v ∈ p.values, Q v)
    {c : Contents} (h : Contents.of ctx file = .ok c) : ∀ o ∈ c.messages, o.Holds Q := by
  obtain ⟨-, hmessages, -⟩ := Contents.of_ok h
  intro o ho
  obtain ⟨i, -, hok⟩ := forall₂_exists_right hmessages ho
  exact Outline.of_holds hq hok

end Outlines

end ProtoJava.Bean
