import ProtoJava.Bean.File
import ProtoJava.Converter.File
import ProtoJava.Proofs.Schema.Renumbering

/-! # Drafts

The source files of a schema file before they are written: what their texts are written from, once
all fields are resolved.
-/

namespace ProtoJava.Bean

open Java
open Mapping

section Outlines

variable {ctx : Context} {file i : Nat}

/-- An outline with its nested ones, where it does not matter that these come later. -/
theorem Outline.of_eq (ctx : Context) (file i : Nat) : Outline.of ctx file i = do
    let shape ← Shape.of ctx ⟨file, i⟩
    let extensions ←
      extensionsOf ctx (some shape.message) shape.message.extensions shape.names.extensions
    let nested ← (nestedClasses (ctx.graph.file file) i).mapM (Outline.of ctx file)
    return .node shape extensions (shape.message.enums.map (EnumShape.of ctx file)) nested := by
  have hnested : ((nestedClasses (ctx.graph.file file) i).attach.mapM fun n =>
      Outline.of ctx file n.1) =
        (nestedClasses (ctx.graph.file file) i).mapM (Outline.of ctx file) := by
    conv_rhs => rw [← List.attach_map_subtype_val (nestedClasses _ i), List.mapM_map]
    rfl
  rw [Outline.of]
  refine bind_congr fun shape => bind_congr fun extensions => ?_
  exact congrArg (· >>= _) hnested

/-- The parts of the outline of a message. -/
theorem Outline.of_ok {o : Outline} (h : Outline.of ctx file i = .ok o) :
    ∃ shape extensions nested, Shape.of ctx ⟨file, i⟩ = .ok shape ∧
      extensionsOf ctx (some shape.message) shape.message.extensions shape.names.extensions =
        .ok extensions ∧
      List.Forall₂ (fun n o => Outline.of ctx file n = .ok o)
        (nestedClasses (ctx.graph.file file) i) nested ∧
      o = .node shape extensions (shape.message.enums.map (EnumShape.of ctx file)) nested := by
  rw [Outline.of_eq] at h
  simp only [bind_eq_ok_iff, pure_eq_ok_iff, mapM_eq_ok_iff] at h
  obtain ⟨shape, hs, extensions, hx, nested, hn, rfl⟩ := h
  exact ⟨shape, extensions, nested, hs, hx, hn, rfl⟩

theorem Contents.of_ok {c : Contents} (h : Contents.of ctx file = .ok c) :
    ∃ extensions, List.Forall₂ (fun i o => Outline.of ctx file i = .ok o)
        ((ctx.graph.file file).topMessages.filter fun i =>
          !((ctx.graph.file file).message i).mapEntry) c.messages ∧
      extensionsOf ctx none (ctx.graph.file file).extensions (ctx.names.file file).extensions =
        .ok extensions ∧
      c.file = ctx.graph.file file ∧
      c.enums = (ctx.graph.file file).topEnums.map (EnumShape.of ctx file) ∧
      c.holder = (ctx.names.file file).extensionsClass.map (·, extensions) := by
  simp only [Contents.of, bind_eq_ok_iff, pure_eq_ok_iff, mapM_eq_ok_iff] at h
  obtain ⟨messages, hm, extensions, hx, rfl⟩ := h
  exact ⟨extensions, hm, hx, rfl, rfl, rfl⟩

theorem Contents.of_package {c : Contents} (h : Contents.of ctx file = .ok c) :
    c.package = (ctx.names.file file).beanPackage := by
  simp only [Contents.of, bind_eq_ok_iff, pure_eq_ok_iff] at h
  obtain ⟨messages, -, extensions, -, rfl⟩ := h
  rfl

/-- The source files with the beans of a file are those of its contents, in either layout. -/
theorem beans_ok {as : List Artifact} (h : beans ctx file = .ok as) :
    ∃ c, Contents.of ctx file = .ok c ∧
      ((∃ wrapper, (ctx.names.file file).wrapperClass = some wrapper ∧
          as = c.wrapped ctx wrapper) ∨
        (ctx.names.file file).wrapperClass = none ∧ as = c.separate ctx) := by
  obtain ⟨c, hc, h⟩ := bind_eq_ok_iff.mp h
  refine ⟨c, hc, ?_⟩
  cases hw : (ctx.names.file file).wrapperClass with
  | some wrapper =>
    rw [hw] at h
    exact Or.inl ⟨wrapper, rfl, (pure_eq_ok_iff.mp h).symm⟩
  | none =>
    rw [hw] at h
    exact Or.inr ⟨rfl, (pure_eq_ok_iff.mp h).symm⟩

end Outlines

/-- A source file in its parts: the prologue with what has been imported, and the steps. -/
theorem sourceFile_eq (c : Contents) (className : String) (nested : List String)
    (steps : Referring (List Step)) :
    let written := steps.run { package := c.package, own := [className], nested }
    sourceFile c className nested steps = .assemble (sourcePath c.package className) c.file.name
      (prologue c.package c.file written.2) (({} : Page).writeEach written.1) :=
  rfl

/-- A source file before it is written. -/
structure Draft where
  className : String
  /-- The names of the classes nested in its class. -/
  nested : List String
  steps : Referring (List Step)

/-- The source files with the beans of a file, in a wrapper if there is one. -/
def Contents.drafts (c : Contents) (ctx : Context) : Option String → List Draft
  | none =>
    (c.messages.map fun o =>
      ⟨o.className, o.innerNames, messageSteps ctx c.file "public " o⟩) ++
    (c.enums.map fun e => ⟨e.names.className, [], return enumSteps c.file e⟩) ++
    (c.holder.toList.map fun (name, extensions) =>
      ⟨name, [], return holderSteps c.file "public " name extensions⟩)
  | some wrapper =>
    if c.messages.isEmpty && c.enums.isEmpty && c.file.extensions.isEmpty then []
    else [⟨wrapper, Outline.namesOfAll c.messages ++ c.enums.map (·.names.className) ++
      c.holder.toList.map (·.1), wrapperSteps ctx c wrapper⟩]

/-- Beans are written from their drafts. -/
theorem beans_eq_drafts (ctx : Context) (file : Nat) : beans ctx file =
    (Contents.of ctx file).map fun c => (c.drafts ctx (ctx.names.file file).wrapperClass).map
      fun d => sourceFile c d.className d.nested d.steps := by
  unfold beans
  cases Contents.of ctx file with
  | error e => rfl
  | ok c =>
    cases (ctx.names.file file).wrapperClass with
    | none => simp [bind, Except.bind, pure, Except.pure, Except.map, Contents.separate,
        Contents.drafts, Function.comp_def]
    | some wrapper =>
      simp only [bind, Except.bind, pure, Except.pure, Except.map, Contents.wrapped,
        Contents.drafts]
      split <;> rfl

end ProtoJava.Bean

namespace ProtoJava.Java

/-- The prologue of a source file follows from the core of the schema file. -/
theorem prologue_of_core {f f' : Schema.File} (h : f'.core = f.core) (package : String)
    (imports : Imports) : prologue package f' imports = prologue package f imports := by
  have hname : f'.name = f.name := Schema.File.of_core (·.name) (fun _ => rfl) h
  have hdeprecated : f'.deprecated = f.deprecated :=
    Schema.File.of_core (·.deprecated) (fun _ => rfl) h
  rw [prologue, prologue, hname, hdeprecated]

end ProtoJava.Java

namespace ProtoJava.Converter

open Java
open Mapping
open Schema (MessageId)

namespace Site

/-- The messages of a converter with their shapes. -/
def shapes (s : Site) : Except Error (List (MessageId × Shape)) :=
  s.convertedMessages.mapM fun i => do
    return (⟨s.file, i⟩, ← Shape.of s.toContext ⟨s.file, i⟩)

end Site

/-- The artifact with the converter for the given shapes. -/
def converterOf (s : Site) (shapes : List (MessageId × Shape)) : Artifact :=
  let class_ := s.names.converterClass s.options.converterPackage s.file
  let imports : Imports := { package := class_.package, own := [class_.simple] }
  let (steps, imports) := (s.classSteps class_.simple shapes).run imports
  .assemble (sourcePath class_.package class_.simple) s.source.name
    (prologue class_.package s.source imports) (({} : Page).writeEach steps)

theorem converter_eq_shapes (ctx : Context) (file : Nat) : converter ctx file =
    if (Site.mk ctx file).convertedMessages.isEmpty then .ok none
    else (Site.mk ctx file).shapes.map fun shapes =>
      some (converterOf (Site.mk ctx file) shapes) := by
  unfold converter
  dsimp only
  split
  · rfl
  · change ((Site.mk ctx file).shapes >>= fun shapes =>
      pure (some (converterOf (Site.mk ctx file) shapes))) = _
    cases (Site.mk ctx file).shapes <;> rfl

theorem Site.shapes_ok {s : Site} {shapes : List (MessageId × Shape)} (h : s.shapes = .ok shapes) :
    ∀ p ∈ shapes, ∃ i ∈ s.convertedMessages, p.1 = ⟨s.file, i⟩ ∧
      Shape.of s.toContext ⟨s.file, i⟩ = .ok p.2 := by
  intro p hp
  obtain ⟨i, hi, hok⟩ := forall₂_exists_right (mapM_eq_ok_iff.mp h) hp
  simp only [bind_eq_ok_iff, pure_eq_ok_iff] at hok
  obtain ⟨shape, hshape, rfl⟩ := hok
  exact ⟨i, hi, rfl, hshape⟩

end ProtoJava.Converter
