import Mathlib.Algebra.BigOperators.Group.Multiset.Basic
import Mathlib.Tactic.Abel
import ProtoJava.Compile
import ProtoJava.Proofs.Bean.Contents
import ProtoJava.Proofs.Bean.Items

/-! # Declarations in beans

The beans of a file annotate every declaration once: all messages that are no map entries and in
none, their fields, unions and extensions, the enums in them, and the file's own extensions. This
is so in either layout; the one with a wrapper has one more annotation for that.
-/

namespace ProtoJava.Bean

open Java
open Mapping
open Naming (MessageNames EnumNames FileNames unionMembers)
open Schema (Message)

/-- The declarations in a message with their names: the message, its fields with the fields of
their wrappers for members of unions, its unions, and its extensions. -/
def messageDeclarations (m : Message) (n : MessageNames) : List Label :=
  (m.path, n.className) :: ((m.fields.map fun f => (f.path, (n.field f).field)) ++
    ((m.oneofs.filter (!·.synthetic)).flatMap fun o =>
      [(o.path, (n.union o).field), (o.path, (n.union o).caseGetter)]) ++
    m.extensions.map fun x => (x.path, (extensionNames n.extensions x).numberConst))

/-- An enum and its values with their names. -/
def enumDeclarations (e : Schema.EnumType) (n : EnumNames) : List Label :=
  (e.path, n.className) :: e.values.mapIdx fun i v => (v.path, n.constants.getD i "")

/-- All declarations of a file that beans are made of, with their names. -/
def declarations (f : Schema.File) (n : FileNames) : List Label :=
  (f.shownMessages.flatMap fun i =>
      messageDeclarations (f.message i) (n.messages.getD i default)) ++
    (f.shownEnums.flatMap fun i => enumDeclarations (f.enumType i) (n.enums.getD i default)) ++
    f.extensions.map fun x => (x.path, (extensionNames n.extensions x).numberConst)

section Outlines

variable {ctx : Context} {file i : Nat}

theorem enumLabels_eq {e : Schema.EnumType} {n : EnumNames}
    (h : n.constants.length = e.values.length) :
    EnumShape.labels ⟨e, n⟩ = enumDeclarations e n := by
  rw [EnumShape.labels, enumDeclarations]
  congr 1
  apply List.ext_getElem
  · simp [h]
  · intro k hk hk'
    have hk : k < n.constants.length := by simpa [h] using hk'
    simp [hk]

theorem coe_flatMap {α β : Type} (l : List α) (f : α → List β) :
    (l.flatMap f : Multiset β) = (l.map fun a => (f a : Multiset β)).sum := by
  induction l with
  | nil => rfl
  | cons a l ih => rw [List.flatMap_cons, ← Multiset.coe_add, ih, List.map_cons, List.sum_cons]

theorem labelsOfAll_eq (os : List Outline) :
    Outline.labelsOfAll os = os.flatMap Outline.labels := by
  induction os with
  | nil => rfl
  | cons o os ih => rw [Outline.labelsOfAll, ih, List.flatMap_cons]

theorem Outline.coe_labels (shape : Shape) (extensions : List Extension) (enums : List EnumShape)
    (nested : List Outline) :
    ((Outline.node shape extensions enums nested).labels : Multiset Label) =
      ↑((shape.message.path, shape.names.className) :: memberLabels shape extensions) +
        (enums.map fun e => (e.labels : Multiset Label)).sum +
        (nested.map fun o => (o.labels : Multiset Label)).sum := by
  rw [Outline.labels, labelsOfAll_eq, ← coe_flatMap, ← coe_flatMap]
  simp

theorem Outline.of_className {o : Outline} (h : Outline.of ctx file i = .ok o) :
    (ctx.names.message ⟨file, i⟩).className = o.className := by
  obtain ⟨shape, extensions, nested, hs, -, -, rfl⟩ := Outline.of_ok h
  rw [Outline.className, Shape.of_names hs]

/-- What a message declares itself is declared once by the steps for its members. -/
theorem memberLabels_eq {s : Shape} {m : Message} {n : MessageNames} {extensions : List Extension}
    (hm : m.Numbered) (hs : s.Fits m n) (hn : n.Fits m) (hp : m.Proper)
    (hx : extensionsOf ctx (some m) m.extensions n.extensions = .ok extensions) :
    ((m.path, n.className) :: memberLabels s extensions : Multiset Label) =
      messageDeclarations m n := by
  have hunions : ((m.oneofs.filter (!·.synthetic)).flatMap fun o =>
      [(o.path, (n.union o).field), (o.path, (n.union o).caseGetter)]).Perm
        (((m.oneofs.filter (!·.synthetic)).map fun o => (o.path, (n.union o).field)) ++
          (m.oneofs.filter (!·.synthetic)).map fun o => (o.path, (n.union o).caseGetter)) := by
    rw [List.map_eq_flatMap, List.map_eq_flatMap]
    exact (List.flatMap_append_perm _ (fun o => [(o.path, (n.union o).field)])
      fun o => [(o.path, (n.union o).caseGetter)]).symm
  have hitems := Multiset.coe_eq_coe.mpr (items_perm hm hs hn hp)
  have hlabels := extensionsOf_labels hx hm.extensions hn.extensions hp.extensions
  rw [messageDeclarations, ← Multiset.cons_coe, ← Multiset.cons_coe, memberLabels,
    accessors_eq hs, hlabels]
  simp only [← Multiset.coe_add, hitems, Multiset.coe_eq_coe.mpr hunions]
  congr 1
  abel

/-- A linked file whose messages are proper, with names for all its declarations. -/
structure Ready (ctx : Context) (file : Nat) : Prop where
  linked : (ctx.graph.file file).Linked
  fits : ∃ layout, (ctx.names.file file).Fits layout (ctx.graph.file file)
  proper : ∀ i, (ctx.graph.file file).Shown i → ((ctx.graph.file file).message i).Proper
  extensions : ∀ x ∈ (ctx.graph.file file).extensions, x.extendee ≠ none

theorem Ready.enum_labels (hr : Ready ctx file)
    (hi : i < (ctx.graph.file file).enums.length) :
    (EnumShape.of ctx file i).labels =
      enumDeclarations ((ctx.graph.file file).enumType i)
        ((ctx.names.file file).enums.getD i default) := by
  obtain ⟨layout, hfits⟩ := hr.fits
  exact enumLabels_eq (hfits.enums i hi)

/-- What a message that is shown declares itself. -/
theorem Ready.member_labels (hr : Ready ctx file) (hi : (ctx.graph.file file).Shown i)
    {shape : Shape} {extensions : List Extension} (hs : Shape.of ctx ⟨file, i⟩ = .ok shape)
    (hx : extensionsOf ctx (some shape.message) shape.message.extensions shape.names.extensions =
      .ok extensions) :
    ((shape.message.path, shape.names.className) :: memberLabels shape extensions :
        Multiset Label) =
      messageDeclarations ((ctx.graph.file file).message i)
        ((ctx.names.file file).messages.getD i default) := by
  obtain ⟨layout, hfits⟩ := hr.fits
  have hm := hr.linked.message_numbered hi.lt
  have hfit := hfits.messages i hi.lt
  have hfs : shape.Fits ((ctx.graph.file file).message i)
      ((ctx.names.file file).messages.getD i default) := Shape.of_ok hs hm hfit
  rw [hfs.message, hfs.names] at hx ⊢
  exact memberLabels_eq hm hfs hfit (hr.proper i hi) hx

end Outlines

section Files

variable {ctx : Context} {file : Nat} {c : Contents}

/-- The declarations in the contents of a file with their names. -/
def Contents.labels (c : Contents) : List Label :=
  Outline.labelsOfAll c.messages ++ c.enums.flatMap EnumShape.labels ++
    c.holder.toList.flatMap (·.2.map Extension.label)

/-- The contents of a file are its declarations. -/
theorem Contents.labels_perm (hr : Ready ctx file) (h : Contents.of ctx file = .ok c) :
    c.labels.Perm (declarations (ctx.graph.file file) (ctx.names.file file)) := by
  obtain ⟨layout, hfits⟩ := hr.fits
  obtain ⟨extensions, hx, hholder⟩ := Contents.holder_eq hfits h
  have hlabels := extensionsOf_labels hx hr.linked.extensions hfits.extensions hr.extensions
  have hsum := Contents.sum_eq (fun o => (o.labels : Multiset Label)) (fun e => e.labels)
    Outline.coe_labels hr.linked h fun i hi _ _ hs hx => hr.member_labels hi hs hx
  have henums : (ctx.graph.file file).shownEnums.map
      (fun e => ((EnumShape.of ctx file e).labels : Multiset Label)) =
        (ctx.graph.file file).shownEnums.map fun e =>
          (enumDeclarations ((ctx.graph.file file).enumType e)
            ((ctx.names.file file).enums.getD e default) : Multiset Label) := by
    refine List.map_congr_left fun e he => congrArg _ (hr.enum_labels ?_)
    exact List.mem_range.mp (List.mem_of_mem_filter he)
  rw [henums] at hsum
  rw [← Multiset.coe_eq_coe, Contents.labels, declarations, hholder, hlabels, labelsOfAll_eq]
  simp only [← Multiset.coe_add, coe_flatMap, hsum]

/-- A file gets beans if its messages and extensions can be resolved. -/
theorem exists_beans {messages : List Outline} {extensions : List Extension}
    (hm : List.Forall₂ (fun i o => Outline.of ctx file i = .ok o)
      ((ctx.graph.file file).topMessages.filter fun i =>
        !((ctx.graph.file file).message i).mapEntry) messages)
    (hx : extensionsOf ctx none (ctx.graph.file file).extensions
      (ctx.names.file file).extensions = .ok extensions) : ∃ as, beans ctx file = .ok as := by
  have hc : ∃ c, Contents.of ctx file = .ok c := by
    rw [Contents.of, mapM_eq_ok_iff.mpr hm, hx]
    exact ⟨_, rfl⟩
  obtain ⟨c, hc⟩ := hc
  rw [beans, hc]
  cases (ctx.names.file file).wrapperClass <;> exact ⟨_, rfl⟩

theorem exists_beans_of_isOk (hm : ∀ i ∈ (ctx.graph.file file).topMessages.filter fun i =>
      !((ctx.graph.file file).message i).mapEntry, (Outline.of ctx file i).isOk)
    (hx : (extensionsOf ctx none (ctx.graph.file file).extensions
      (ctx.names.file file).extensions).isOk) : ∃ as, beans ctx file = .ok as := by
  obtain ⟨messages, hmessages⟩ := exists_mapM_iff.mpr fun i hi => exists_eq_ok (hm i hi)
  obtain ⟨extensions, hextensions⟩ := exists_eq_ok hx
  exact exists_beans (mapM_eq_ok_iff.mp hmessages) hextensions

theorem sourceFile_labels (c : Contents) (className : String) (nested : List String)
    {steps : Referring (List Step)} {ls : List Label}
    (h : Yields AnyImports steps fun steps => Marked steps ls) :
    (sourceFile c className nested steps).labels = ls.map fun l => (l.1, some l.2) := by
  obtain ⟨⟨hs, hl⟩, -⟩ := h { package := c.package, own := [className], nested } True.intro
  rw [← hl]
  exact Artifact.assemble_labels _ _ _ hs

/-- One source file for each class has all declarations. -/
theorem Contents.separate_labels (c : Contents) (ctx : Context) :
    (c.separate ctx).flatMap Artifact.labels = c.labels.map fun l => (l.1, some l.2) := by
  have hm : ∀ o ∈ c.messages, (sourceFile c o.className o.innerNames
      (messageSteps ctx c.file "public " o)).labels = o.labels.map fun l => (l.1, some l.2) :=
    fun o _ => sourceFile_labels _ _ _ (messageSteps_marked ctx c.file "public " o)
  have he : ∀ e ∈ c.enums, (sourceFile c e.names.className []
      (return enumSteps c.file e)).labels = e.labels.map fun l => (l.1, some l.2) :=
    fun e _ => sourceFile_labels _ _ _ (Yields.pure (marked_enumSteps c.file e))
  have hh : ∀ p ∈ c.holder.toList, (sourceFile c p.1 []
      (return holderSteps c.file "public " p.1 p.2)).labels =
        (p.2.map Extension.label).map fun l => (l.1, some l.2) :=
    fun p _ => sourceFile_labels _ _ _ (Yields.pure (marked_holderSteps c.file "public " p.1 p.2))
  rw [Contents.separate, Contents.labels, labelsOfAll_eq]
  simp only [List.flatMap_append, List.flatMap_map, List.map_append, List.map_flatMap]
  rw [List.flatMap_congr hm, List.flatMap_congr he, List.flatMap_congr hh]

theorem wrapperSteps_marked (ctx : Context) (c : Contents) (wrapper : String) :
    Yields AnyImports (wrapperSteps ctx c wrapper) fun steps =>
      Marked steps (([], wrapper) :: c.labels) := by
  refine (nestedSteps_marked ctx c.file c.messages).bind fun messages hm => Yields.pure ?_
  have he : Marked (c.enums.flatMap fun e => enumSteps c.file e ++ [.blank])
      (c.enums.flatMap EnumShape.labels) := by
    refine Marked.flatMap fun e _ => ?_
    exact ((marked_enumSteps c.file e).append .blank).of_eq (List.append_nil _)
  have hh : Marked (c.holder.toList.flatMap fun p => holderSteps c.file "public static " p.1 p.2)
      (c.holder.toList.flatMap (·.2.map Extension.label)) :=
    Marked.flatMap fun p _ => marked_holderSteps c.file "public static " p.1 p.2
  have hall := Marked.declared [] "public final class " wrapper ""
    (((((Marked.line ("private " ++ wrapper ++ "() {}")).cons .blank).append hm).append
      he).append hh)
  exact hall.of_eq (by simp [Contents.labels])

/-- A wrapper has all declarations after its own. -/
theorem Contents.wrapped_labels (c : Contents) (ctx : Context) (wrapper : String)
    (hc : c.wrapped ctx wrapper ≠ []) : (c.wrapped ctx wrapper).flatMap Artifact.labels =
      (([], wrapper) :: c.labels).map fun l => (l.1, some l.2) := by
  rw [Contents.wrapped] at hc ⊢
  split at hc
  · exact absurd rfl hc
  · next hne =>
    rw [if_neg hne, List.flatMap_singleton]
    exact sourceFile_labels _ _ _ (wrapperSteps_marked ctx c wrapper)

/-- No source file is left out but one without declarations. -/
theorem Contents.labels_eq_nil (h : Contents.of ctx file = .ok c) {wrapper : String}
    (hc : c.wrapped ctx wrapper = []) : c.labels = [] := by
  obtain ⟨extensions, -, hx, hf, -, hh⟩ := Contents.of_ok h
  rw [Contents.wrapped] at hc
  split at hc
  · next he =>
    simp only [Bool.and_eq_true, List.isEmpty_iff, hf] at he
    obtain ⟨⟨hmessages, henums⟩, hextensions⟩ := he
    rw [hextensions] at hx
    rw [Contents.labels, hmessages, henums, hh, extensionsOf_nil hx]
    cases (ctx.names.file file).extensionsClass <;> rfl
  · simp at hc

end Files

section Prepared

variable (o : Options) (g : Schema.Graph) (generate : List Nat)

@[simp] theorem prepare_graph : (Context.prepare o g generate).graph = g :=
  rfl

@[simp] theorem prepare_names :
    (Context.prepare o g generate).names = Naming.allocate o g generate :=
  rfl

end Prepared

/-- The beans of a file declare everything in it once, in either layout by the same names. With a
wrapper there is one more declaration, if there are any. -/
theorem beans_declarations {raws : List Descriptor.File} {g : Schema.Graph}
    (hg : Schema.Graph.build raws = .ok g) (o : Options) (l : Layout) (generate : List Nat)
    {file : Nat} (hfile : file < g.files.length)
    (hm : ∀ i, (g.file file).Shown i → ((g.file file).message i).Proper)
    (hx : ∀ x ∈ (g.file file).extensions, x.extendee ≠ none) {as : List Artifact}
    (h : beans (Context.prepare { o with layout := l } g generate) file = .ok as) :
    ∃ wrapper : String,
      (l = .file → ((Naming.allocate { o with layout := l } g generate).file file).wrapperClass =
        some wrapper) ∧
      (as.flatMap Artifact.labels).Perm
        ((declarations (g.file file) ((Naming.allocate o g generate).file file) ++
          if l = Layout.file ∧ as ≠ [] then [([], wrapper)] else []).map fun d : Label =>
            (d.1, some d.2)) := by
  let names := (Naming.allocate { o with layout := l } g generate).file file
  have hl := Schema.Graph.build_linked hg file
  have hfits : names.Fits l (g.file file) := Naming.allocate_fits hl hfile
  have hr : Ready (Context.prepare { o with layout := l } g generate) file :=
    ⟨hl, ⟨l, hfits⟩, hm, hx⟩
  obtain ⟨other, hother⟩ := Naming.allocate_layout o l g generate file
  have hnames : declarations (g.file file) names =
      declarations (g.file file) ((Naming.allocate o g generate).file file) := by
    simp only [names, hother]
    rfl
  simp only [beans, bind_eq_ok_iff] at h
  obtain ⟨c, hc, h⟩ := h
  have hperm := Contents.labels_perm hr hc
  rw [prepare_graph, prepare_names, hnames] at hperm
  have hclass := hfits.wrapperClass
  cases hw : names.wrapperClass with
  | none =>
    have hlayout : l ≠ .file := by
      rintro rfl
      simp [hw] at hclass
    have has : c.separate (Context.prepare { o with layout := l } g generate) = as := by
      rw [prepare_names, hw] at h
      exact Except.ok.inj h
    refine ⟨"", fun h => absurd h hlayout, ?_⟩
    rw [if_neg fun h => hlayout h.1, List.append_nil, ← has, Contents.separate_labels]
    exact hperm.map _
  | some wrapper =>
    have hlayout : l = .file := by
      rw [hw] at hclass
      simpa using hclass.symm
    have has : c.wrapped (Context.prepare { o with layout := l } g generate) wrapper = as := by
      rw [prepare_names, hw] at h
      exact Except.ok.inj h
    refine ⟨wrapper, fun _ => rfl, ?_⟩
    by_cases he : as = []
    · rw [he] at has
      have hnil : c.labels = [] := Contents.labels_eq_nil hc has
      rw [hnil] at hperm
      rw [if_neg fun h => h.2 he, List.append_nil, he, ← hperm.nil_eq]
      exact List.Perm.refl _
    · rw [if_pos ⟨hlayout, he⟩, ← has, Contents.wrapped_labels _ _ _ (has ▸ he)]
      exact ((hperm.cons _).trans (List.perm_append_singleton _ _).symm).map _

/-- A file with a union whose members stand apart, a map, an enum and extensions. -/
def shop : Descriptor.File where
  name := "shop.proto"
  package := "shop"
  messages := [{
    name := "Order"
    fields := [
      { name := "paid", number := 1, type := 8, label := 1, oneofIndex := some 0 },
      { name := "tags", number := 2, type := 11, label := 3, typeName := ".shop.Order.TagsEntry" },
      { name := "due", number := 3, type := 5, label := 1, oneofIndex := some 0 }]
    extensions := [
      { name := "note", number := 100, type := 9, label := 1, extendee := some ".shop.Order" }]
    nested := [{
      name := "TagsEntry"
      fields := [
        { name := "key", number := 1, type := 9, label := 1 },
        { name := "value", number := 2, type := 5, label := 1 }]
      mapEntry := true }]
    enums := [{ name := "State", values := [{ name := "OPEN" }] }]
    oneofs := ["payment"] }]
  extensions := [
    { name := "rank", number := 101, type := 5, label := 1, extendee := some ".shop.Order" }]

theorem beans_declarations_shop :
    ∃ g as wrapper, Schema.Graph.build [shop] = .ok g ∧
      beans (Context.prepare ⟨"bean", "conv", .file, false⟩ g [0]) 0 = .ok as ∧
      ((Naming.allocate ⟨"bean", "conv", .file, false⟩ g [0]).file 0).wrapperClass =
        some wrapper ∧
      (as.flatMap Artifact.labels).Perm
        ((declarations (g.file 0) ((Naming.allocate ⟨"bean", "conv", .type, false⟩ g [0]).file 0) ++
          if Layout.file = Layout.file ∧ as ≠ [] then [([], wrapper)] else []).map fun d : Label =>
            (d.1, some d.2)) := by
  let g := (Schema.Graph.build [shop]).toOption.getD default
  have hg : Schema.Graph.build [shop] = .ok g := rfl
  have hproper : ∀ m ∈ (g.file 0).messages, (∀ f ∈ m.fields, f.extendee = none) ∧
      (∀ x ∈ m.extensions, x.extendee ≠ none) ∧
      ∀ o ∈ m.oneofs, o.synthetic = false → ∃ f ∈ m.fields, f.oneofIndex = some o.index := by
    decide +kernel
  have hm : ∀ i, (g.file 0).Shown i → ((g.file 0).message i).Proper := by
    intro i hi
    obtain ⟨hfields, hextensions, hunions⟩ :=
      hproper _ (Schema.File.message_eq_getElem hi.lt ▸ List.getElem_mem hi.lt)
    exact ⟨hfields, hextensions, hunions⟩
  let ctx := Context.prepare ⟨"bean", "conv", .file, false⟩ g [0]
  have hroots : ((ctx.graph.file 0).topMessages.filter fun i =>
      !((ctx.graph.file 0).message i).mapEntry) = [0] := by
    decide +kernel
  have houtline : (Outline.of ctx 0 0).isOk := by
    rw [Outline.of]
    decide +kernel
  have hextensions : (extensionsOf ctx none (ctx.graph.file 0).extensions
      (ctx.names.file 0).extensions).isOk := by
    decide +kernel
  obtain ⟨o, ho⟩ := exists_eq_ok houtline
  obtain ⟨xs, hxs⟩ := exists_eq_ok hextensions
  have houtlines : List.Forall₂ (fun i o => Outline.of ctx 0 i = .ok o)
      ((ctx.graph.file 0).topMessages.filter fun i =>
        !((ctx.graph.file 0).message i).mapEntry) [o] := by
    rw [hroots]
    exact .cons ho .nil
  obtain ⟨as, has⟩ := exists_beans houtlines hxs
  obtain ⟨wrapper, hw, h⟩ := beans_declarations hg ⟨"bean", "conv", .type, false⟩ .file [0]
    (by decide +kernel) hm (by decide +kernel) has
  exact ⟨g, as, wrapper, hg, has, hw rfl, h⟩

end ProtoJava.Bean
