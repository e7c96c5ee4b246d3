import ProtoJava.Proofs.Bean.Balanced
import ProtoJava.Proofs.Bean.Declarations
import ProtoJava.Proofs.Java.Verified

/-! # Verified bean sources

Every source file with beans passes its verification, in either layout.
-/

namespace ProtoJava.Bean

open Java
open Mapping

section Contents

variable {ctx : Context} {file i : Nat}

theorem extensionsOf_proper (hctx : ctx.Proper) {m : Option Schema.Message}
    {fields : List Schema.Field} {names : List Naming.ExtensionNames} {xs : List Extension}
    (hf : ∀ f ∈ fields, f.Spelled) (hn : ∀ n ∈ names, n.Proper)
    (h : extensionsOf ctx m fields names = .ok xs) : ∀ x ∈ xs, x.Proper := by
  intro x hx
  obtain ⟨f, hfield, n, hname, hp, hnames, id, htarget⟩ := exists_of_mem_extensionsOf h hx
  exact ⟨classify_proper hctx.resolve (hf f hfield) hp, hnames ▸ hn n hname,
    htarget ▸ hctx.fullName _⟩

theorem EnumShape.of_proper (hctx : ctx.Proper) (hi : i < (ctx.graph.file file).enums.length) :
    (EnumShape.of ctx file i).Proper :=
  hctx.enumNames ⟨file, i⟩ hi

/-- An outline is proper, from the messages nested deepest outwards. -/
theorem Outline.of_proper (hctx : ctx.Proper) {o : Outline}
    (hi : i < (ctx.graph.file file).messages.length) (h : Outline.of ctx file i = .ok o) :
    o.Proper := by
  obtain ⟨k, hk⟩ : ∃ k, (ctx.graph.file file).messages.length - i = k := ⟨_, rfl⟩
  induction k using Nat.strongRecOn generalizing i o with
  | ind k ih =>
    obtain ⟨shape, extensions, nested, hs, hx, hn, rfl⟩ := Outline.of_ok h
    obtain ⟨hshape, hmessage⟩ := Shape.of_proper hctx hi hs
    have hspelled : (ctx.graph.message ⟨file, i⟩).Spelled := hctx.message_spelled hi
    refine .node hshape ?_ ?_ ?_
    · refine extensionsOf_proper hctx ?_ hshape.names.extensions hx
      rw [hmessage]
      exact hspelled.extensions
    · rw [hmessage]
      refine List.forall_mem_map.mpr fun e he => EnumShape.of_proper hctx ?_
      exact (((hctx.linked file).mem_enums_iff hi).mp he).1
    · intro o ho
      obtain ⟨n, hmem, ho⟩ := forall₂_exists_right hn ho
      obtain ⟨hafter, hbound⟩ := lt_of_mem_nestedClasses hmem
      exact ih _ (by omega) hbound ho rfl

end Contents

/-- Contents of a file with proper parts. -/
structure Contents.Proper (c : Contents) : Prop where
  file : Inline c.file.name
  package : Naming.isPackageName c.package.toList
  messages : ∀ o ∈ c.messages, o.Proper
  enums : ∀ e ∈ c.enums, e.Proper
  holder : ∀ p ∈ c.holder, isIdentifier p.1.toList ∧ ∀ x ∈ p.2, x.Proper

section Files

variable {ctx : Context} {file : Nat} {c : Contents}

theorem Contents.of_proper (hctx : ctx.Proper) (hf : (ctx.names.file file).Proper)
    (hfile : file < ctx.graph.files.length) (h : Contents.of ctx file = .ok c) : c.Proper := by
  have hspelled := hctx.spelled _ (Schema.Graph.file_of_lt hfile)
  obtain ⟨extensions, hm, hx, hfile, henums, hholder⟩ := Contents.of_ok h
  constructor
  case file => exact hfile ▸ hspelled.name
  case package => exact Contents.of_package h ▸ hf.beanPackage
  case messages =>
    intro o ho
    obtain ⟨i, hi, ho⟩ := forall₂_exists_right hm ho
    have htop := Schema.File.mem_topMessages_iff.mp (List.mem_of_mem_filter hi)
    exact Outline.of_proper hctx htop.1 ho
  case enums =>
    rw [henums]
    refine List.forall_mem_map.mpr fun e he => EnumShape.of_proper hctx ?_
    exact (Schema.File.mem_topEnums_iff.mp he).1
  case holder =>
    rintro _ hp
    rw [hholder] at hp
    obtain ⟨name, hname, rfl⟩ := Option.map_eq_some_iff.mp hp
    exact ⟨hf.extensionsClass name hname, extensionsOf_proper hctx hspelled.extensions
      hf.extensions hx⟩

/-- A source file of balanced steps for a class is verified. -/
theorem sourceFile_verify (hc : c.Proper) {className : String} (nested : List String)
    {steps : Referring (List Step)} (hn : isIdentifier className.toList) (hs : Balances steps) :
    (sourceFile c className nested steps).verify = .ok () := by
  have htidy : Imports.Tidy { package := c.package, own := [className], nested } := by
    simp [Imports.Tidy]
  obtain ⟨hbalanced, himports⟩ := hs _ htidy
  exact verify_assemble hc.package hn hc.file himports (hbalanced []) _

theorem Outline.Proper.className {o : Outline} (h : o.Proper) :
    isIdentifier o.className.toList := by
  obtain ⟨hs, -, -, -⟩ := h
  exact hs.names.className

theorem separate_verify (hctx : ctx.Proper) (hc : c.Proper) :
    ∀ a ∈ c.separate ctx, a.verify = .ok () := by
  have hpublic : Neutral "public " := fun _ => .lit rfl
  intro a ha
  simp only [Contents.separate, List.mem_append, List.mem_map, Option.mem_toList] at ha
  rcases ha with (⟨o, ho, rfl⟩ | ⟨e, he, rfl⟩) | ⟨p, hp, rfl⟩
  · have ho := hc.messages o ho
    exact sourceFile_verify hc _ ho.className (messageSteps_balances c.file hctx hpublic o ho)
  · have he := hc.enums e he
    exact sourceFile_verify hc _ he.className (Yields.pure (balanced_enumSteps c.file he))
  · obtain ⟨hname, hx⟩ := hc.holder p hp
    refine sourceFile_verify hc _ hname (Yields.pure ?_)
    exact balanced_holderSteps c.file hpublic (neutral_of_isIdentifier hname) hx

theorem wrapperSteps_balances (hctx : ctx.Proper) (hc : c.Proper) {wrapper : String}
    (hw : isIdentifier wrapper.toList) : Balances (wrapperSteps ctx c wrapper) := by
  have hwrapper := neutral_of_isIdentifier hw
  refine (nestedSteps_balances c.file hctx c.messages hc.messages).bind fun messages hm => ?_
  have hhead : Neutral ("public final class " ++ wrapper ++ "") :=
    (Neutral.append (fun _ => .lit rfl) hwrapper).append neutral_empty
  have hconstructor : Neutral ("private " ++ wrapper ++ "() \x7b\x7d") :=
    (Neutral.append (fun _ => .lit rfl) hwrapper).append fun _ => .lit rfl
  refine Yields.pure (.declared hw hhead (.append (.append (.append ?_ hm) ?_) ?_))
  · exact .cons (.line hconstructor) .blank
  · exact balanced_enums c.file hc.enums
  · refine .flatMap fun p hp => ?_
    obtain ⟨hname, hx⟩ := hc.holder p (Option.mem_toList.mp hp)
    exact balanced_holderSteps c.file (fun _ => .lit rfl) (neutral_of_isIdentifier hname) hx

theorem wrapped_verify (hctx : ctx.Proper) (hc : c.Proper) {wrapper : String}
    (hw : isIdentifier wrapper.toList) : ∀ a ∈ c.wrapped ctx wrapper, a.verify = .ok () := by
  intro a ha
  unfold Contents.wrapped at ha
  split at ha
  · exact absurd ha List.not_mem_nil
  · rw [List.mem_singleton] at ha
    exact ha ▸ sourceFile_verify hc _ hw (wrapperSteps_balances hctx hc hw)

/-- Every source file with the beans of a file is verified. -/
theorem beans_verify (hctx : ctx.Proper) (hf : (ctx.names.file file).Proper)
    (hfile : file < ctx.graph.files.length) {as : List Artifact} (h : beans ctx file = .ok as) :
    ∀ a ∈ as, a.verify = .ok () := by
  obtain ⟨c, hc, has⟩ := beans_ok h
  have hproper := Contents.of_proper hctx hf hfile hc
  obtain ⟨wrapper, hw, rfl⟩ | ⟨-, rfl⟩ := has
  · exact wrapped_verify hctx hproper (hf.wrapperClass wrapper hw)
  · exact separate_verify hctx hproper

end Files

end ProtoJava.Bean
