import ProtoJava.Compile
import ProtoJava.Proofs.Bean.Entries
import ProtoJava.Proofs.Converter.Entries
import ProtoJava.Proofs.Mapping.Mirroring

/-! # Map entries do not surface

Of a map entry only the map is left that its fields are folded into. The sources of a file do not
depend on its names, make nothing of it, point nowhere inside it, and name other classes only.
-/

namespace ProtoJava

open Java (ClassName Annotation libraryPackages)
open Mapping
open Schema (Graph MessageId EnumId)

/-- A class of the Java libraries, a class for an enum or for a message that is no map entry, or a
converter. -/
inductive ClassBeside (ctx : Context) : ClassName → Prop
  | library {c : ClassName} : c.package ∈ libraryPackages → ClassBeside ctx c
  | bean {id : MessageId} : ctx.graph.Has (.message id) → (ctx.graph.message id).mapEntry = false →
      ClassBeside ctx (ctx.names.messageClass ctx.graph id)
  | proto {id : MessageId} : ctx.graph.Has (.message id) →
      (ctx.graph.message id).mapEntry = false →
        ClassBeside ctx (ctx.names.protoMessageClass ctx.graph id)
  | enum {id : EnumId} : ctx.graph.Has (.enum id) →
      ClassBeside ctx (ctx.names.enumClass ctx.graph id)
  | protoEnum {id : EnumId} : ctx.graph.Has (.enum id) →
      ClassBeside ctx (ctx.names.protoEnumClass ctx.graph id)
  | converter (file : Nat) :
      ClassBeside ctx (ctx.names.converterClass ctx.options.converterPackage file)

/-- No annotation has the path of a map entry of a file or one below it. -/
def PointsBeside (f : Schema.File) (annotations : List Annotation) : Prop :=
  ∀ e, (f.message e).mapEntry → ∀ x ∈ annotations, ¬ (f.message e).path <+: x.path

/-- The beans of a file show no map entry. -/
structure HiddenFromBeans (ctx : Context) (file : Nat) : Prop where
  names : ∀ a, ctx.names.AgreesBeside ctx.graph a →
    Bean.beans { ctx with names := a } file = Bean.beans ctx file
  classes : ∀ c, Bean.Contents.of ctx file = .ok c → ∀ top ∈ c.messages, ∀ o, o.Inside top →
    ∃ i, ((ctx.graph.file file).message i).mapEntry = false ∧ Bean.Outline.of ctx file i = .ok o
  annotations : ∀ as, Bean.beans ctx file = .ok as → ∀ a ∈ as,
    PointsBeside (ctx.graph.file file) a.annotations
  mentions : ∀ c, Bean.Contents.of ctx file = .ok c →
    ∀ d ∈ c.drafts ctx (ctx.names.file file).wrapperClass, Mentions (ClassBeside ctx) d.steps

/-- The converter of a file shows no map entry. -/
structure HiddenFromConverter (ctx : Context) (file : Nat) : Prop where
  names : ∀ a, ctx.names.AgreesBeside ctx.graph a →
    Converter.converter { ctx with names := a } file = Converter.converter ctx file
  methods : ∀ shapes, (Converter.Site.mk ctx file).shapes = .ok shapes → ∀ p ∈ shapes,
    (ctx.graph.message p.1).mapEntry = false ∧ Shape.of ctx p.1 = .ok p.2
  annotations : ∀ a, Converter.converter ctx file = .ok (some a) →
    PointsBeside (ctx.graph.file file) a.annotations
  mentions : ∀ shapes, (Converter.Site.mk ctx file).shapes = .ok shapes → ∀ name,
    Mentions (ClassBeside ctx) ((Converter.Site.mk ctx file).classSteps name shapes)

section Hidden

variable {raws : List Descriptor.File} {g : Graph}

theorem pointsBeside_of_labels (hg : Graph.build raws = .ok g) (hm : g.PlainMaps) {file : Nat}
    {a : Java.Artifact} (h : ∀ l ∈ a.labels, (g.file file).Beside l.1) :
    PointsBeside (g.file file) a.annotations := by
  intro e he x hx
  have hbeside : (g.file file).Beside x.path := h _ (List.mem_map_of_mem hx)
  exact hm.not_below hg hbeside he

/-- A declared value that is no map entry has classes besides those of entries. -/
theorem site_admits_beside {ctx : Context} {file : Nat} {v : Value}
    (hv : ∀ ref ∈ v.ref?, ctx.graph.Has ref) (hn : v.NoEntry ctx.graph) :
    (Converter.Site.mk ctx file).Admits (ClassBeside ctx) v := by
  cases v with
  | scalar v => trivial
  | message id => exact ⟨.bean (hv _ rfl) hn, .proto (hv _ rfl) hn, .converter _⟩
  | enum id => exact ⟨.enum (hv _ rfl), fun _ => .protoEnum (hv _ rfl)⟩

variable (hg : Graph.build raws = .ok g) (hr : ∀ m f, g.Declares m f → g.Refers f)
  (hm : g.RegularMaps) (o : Options) (generate : List Nat) (file : Nat)

include hg hr hm

theorem noEntry_of_field {i : Nat} {x : Schema.Field} (hx : x ∈ ((g.file file).message i).fields)
    {p : Property} (hp : (scopeOf g).classify (some ((g.file file).message i)) x = .ok p)
    {v : Value} (hv : v ∈ p.values) : v.NoEntry g := by
  have hdeclared : g.Declares (some (g.message ⟨file, i⟩)) x := Graph.declares_field hx
  exact noEntry_of_classify hg hr hm hdeclared hp hv

theorem site_admits_field {i : Nat} {x : Schema.Field}
    (hx : x ∈ ((g.file file).message i).fields) {p : Property}
    (hp : (scopeOf g).classify (some ((g.file file).message i)) x = .ok p) {v : Value}
    (hv : v ∈ p.values) : (Converter.Site.mk (Context.prepare o g generate) file).Admits
      (ClassBeside (Context.prepare o g generate)) v := by
  refine site_admits_beside (fun ref href => ?_) (noEntry_of_field hg hr hm file hx hp hv)
  exact has_of_classify hg hp ref
    (List.mem_append_left _ (List.mem_filterMap.mpr ⟨v, hv, href⟩))

omit hr in
theorem renamesEntries {a : Naming.Allocation}
    (ha : (Naming.allocate o g generate).AgreesBeside g a) :
    (Context.prepare o g generate).RenamesEntries
      { Context.prepare o g generate with names := a } where
  scope := rfl
  options := rfl
  names := ha
  linked := Graph.build_linked hg
  leaf := hm.leaf

theorem hiddenFromBeans : HiddenFromBeans (Context.prepare o g generate) file := by
  constructor
  case names =>
    intro a ha
    exact Bean.beans_renamed (renamesEntries hg hm o generate ha)
      fun i x hx p hp v hv => noEntry_of_field hg hr hm file hx hp hv
  case classes => exact fun c hc top htop o ho => Bean.Contents.exists_of hc htop ho
  case annotations =>
    intro as has a ha
    have hlabels := Bean.beans_beside (Graph.build_linked hg file) has a ha
    exact pointsBeside_of_labels hg hm.toPlainMaps hlabels
  case mentions =>
    intro c hc
    refine Bean.Contents.drafts_mention (fun _ => .library)
      (Bean.Contents.of_holds (fun i x hx p hp v hv => ?_) hc) _
    exact Converter.admits_bean (site_admits_field hg hr hm o generate file hx hp hv)

theorem hiddenFromConverter : HiddenFromConverter (Context.prepare o g generate) file := by
  constructor
  case names =>
    intro a ha
    exact Converter.converter_renamed (renamesEntries hg hm o generate ha) file
      fun i x hx p hp v hv => noEntry_of_field hg hr hm file hx hp hv
  case methods =>
    intro shapes hok p hp
    obtain ⟨i, -, hentry, hid, hshape⟩ := Converter.shapes_beside hok p hp
    rw [hid]
    exact ⟨hentry, hshape⟩
  case annotations =>
    intro a ha
    exact pointsBeside_of_labels hg hm.toPlainMaps (Converter.converter_beside ha)
  case mentions =>
    intro shapes hok name
    refine Converter.classSteps_mentions (fun _ => .library) (fun p hp => ?_) name
    obtain ⟨i, hi, hentry, hid, hshape⟩ := Converter.shapes_beside hok p hp
    have hhas : g.Has (.message ⟨file, i⟩) := ⟨Naming.file_lt (Or.inl hi), hi⟩
    constructor
    · rw [hid]
      exact ⟨.bean hhas hentry, .proto hhas hentry⟩
    · refine Shape.of_holds hshape fun x hx p hp v hv => ?_
      exact site_admits_field hg hr hm o generate file hx hp hv

end Hidden

/-- If map entries hold no types, are the type of fields for maps only, and no map has values that
are map entries, then every field of such a type becomes a map from the first field of its entries
that is numbered 1 to the first one that is numbered 2, no other value is an entry, and no source
shows one. -/
theorem mapEntries_hidden {raws : List Descriptor.File} {g : Graph}
    (hg : Graph.build raws = .ok g) (hr : g.checkReferences g.index = .ok ())
    (hm : g.RegularMaps) :
    (∀ m x, g.Declares m x → ∀ entry ∈ g.target? x, (g.message entry).mapEntry →
      Folds g m x entry) ∧
    (∀ m x p, g.Declares m x → (scopeOf g).classify m x = .ok p →
      ∀ v ∈ p.values, v.NoEntry g) ∧
    ∀ o generate file, HiddenFromBeans (Context.prepare o g generate) file ∧
      HiddenFromConverter (Context.prepare o g generate) file := by
  have hr := (Graph.checkReferences_iff hg).mp hr
  refine ⟨fun m x hx entry ht he => folds hg hr hm hx ht he,
    fun m x p hx hp v hv => noEntry_of_classify hg hr hm hx hp hv, fun o generate file => ?_⟩
  exact ⟨hiddenFromBeans hg hr hm o generate file, hiddenFromConverter hg hr hm o generate file⟩

/-- Maps whose entries are not in order: to messages that have a map themselves, and to enums. -/
def atlas : Descriptor.File where
  name := "atlas.proto"
  package := "atlas"
  messages := [{
    name := "Atlas"
    fields := [
      { name := "places", number := 1, type := 11, label := 3,
        typeName := ".atlas.Atlas.PlacesEntry" }]
    nested := [
      { name := "PlacesEntry"
        fields := [
          { name := "note", number := 3, type := 9, label := 3 },
          { name := "value", number := 2, type := 11, label := 1,
            typeName := ".atlas.Atlas.Place" },
          { name := "key", number := 1, type := 9, label := 1 }]
        mapEntry := true },
      { name := "Place"
        fields := [
          { name := "kinds", number := 1, type := 11, label := 3,
            typeName := ".atlas.Atlas.Place.KindsEntry" }]
        nested := [
          { name := "KindsEntry"
            fields := [
              { name := "key", number := 1, type := 5, label := 1 },
              { name := "value", number := 2, type := 14, label := 1, typeName := ".atlas.Kind" }]
            mapEntry := true }] }] }]
  enums := [{ name := "Kind", values := [{ name := "TOWN", number := 0 }] }]

theorem mapEntries_hidden_atlas :
    ∃ g, Graph.build [atlas] = .ok g ∧ g.checkReferences g.index = .ok () ∧ g.RegularMaps ∧
      (∃ m x, g.Declares m x ∧ Folds g m x ⟨0, 1⟩) ∧
      ∃ o as, Options.read "vopkg=p" = .ok o ∧ Bean.beans (Context.prepare o g [0]) 0 = .ok as ∧
        as.length = 2 ∧ HiddenFromBeans (Context.prepare o g [0]) 0 := by
  let g := (Graph.build [atlas]).toOption.getD default
  let o : Options := ⟨"p", "p.converter", .type, false⟩
  have hg : Graph.build [atlas] = .ok g := rfl
  have hr : g.checkReferences g.index = .ok () := by decide +kernel
  have hm : g.RegularMaps := {
    leaf := Graph.leafEntries_of_forall (by decide +kernel)
    fields := Graph.forall_declares_iff.mpr (by decide +kernel)
    values := Graph.forall_declares_iff.mpr (by decide +kernel) }
  have hbeans : (Bean.beans (Context.prepare o g [0]) 0).toOption.any (·.length == 2) := by
    decide +kernel
  have hfield : ∃ x ∈ (g.message ⟨0, 0⟩).fields, ⟨0, 1⟩ ∈ g.target? x := by decide +kernel
  have hentry : (g.message ⟨0, 1⟩).mapEntry := by decide +kernel
  obtain ⟨as, hok, hlength⟩ := exists_eq_ok_of_any hbeans
  obtain ⟨x, hx, ht⟩ := hfield
  obtain ⟨hfolds, -, hhidden⟩ := mapEntries_hidden hg hr hm
  have hx : g.Declares (some (g.message ⟨0, 0⟩)) x := Graph.declares_field hx
  exact ⟨g, hg, hr, hm, ⟨_, x, hx, hfolds _ x hx _ ht hentry⟩, o, as, rfl, hok,
    beq_iff_eq.mp hlength, (hhidden o [0] 0).1⟩

/-- A map whose values are the entries of another one. -/
def tally : Descriptor.File where
  name := "m.proto"
  package := "m"
  messages := [{
    name := "Outer"
    fields := [
      { name := "items", number := 1, type := 11, label := 3, typeName := ".m.Outer.ItemsEntry" }]
    nested := [
      { name := "ItemsEntry"
        fields := [
          { name := "key", number := 1, type := 9, label := 1 },
          { name := "value", number := 2, type := 11, label := 3,
            typeName := ".m.Outer.CountsEntry" }]
        mapEntry := true },
      { name := "CountsEntry"
        fields := [
          { name := "key", number := 1, type := 9, label := 1 },
          { name := "value", number := 2, type := 5, label := 1 }]
        mapEntry := true }] }]

/-- The steps of a draft of some contents, and what they import. -/
def Bean.Draft.written (c : Bean.Contents) (d : Bean.Draft) : List Java.Step × Java.Imports :=
  d.steps.run { package := c.package, own := [d.className], nested := d.nested }

/-- Beans depend on the names of map entries if the first draft has another length with the same
imports. -/
theorem beans_ne_of_length {ctx ctx' : Context} (h : ctx.RenamesEntries ctx') {file : Nat}
    {c : Bean.Contents} (hc : Bean.Contents.of ctx file = .ok c) {wrapper : Option String}
    (hw : (ctx.names.file file).wrapperClass = wrapper) {d d' : Bean.Draft}
    (hd : (c.drafts ctx wrapper).head? = some d) (hd' : (c.drafts ctx' wrapper).head? = some d')
    (hi : (d'.written c).2.imported = (d.written c).2.imported)
    (ht : (({} : Java.Page).writeEach (d'.written c).1).written.length ≠
      (({} : Java.Page).writeEach (d.written c).1).written.length) :
    Bean.beans ctx' file ≠ Bean.beans ctx file := by
  intro heq
  rw [Bean.beans_eq_drafts, Bean.beans_eq_drafts, Bean.Contents.of_renamed h,
    h.names.wrapperClass, hc, hw] at heq
  have hheads := congrArg List.head? (Except.ok.inj heq)
  rw [List.head?_map, List.head?_map, hd, hd'] at hheads
  have hcontent := congrArg Java.Artifact.content (Option.some.inj hheads)
  change Java.prologue c.package c.file (d'.written c).2 ++ _ =
    Java.prologue c.package c.file (d.written c).2 ++ _ at hcontent
  rw [Java.prologue, Java.prologue, Java.Imports.lines, Java.Imports.lines, hi] at hcontent
  have htext := String.ofList_injective ((String.append_right_inj _).mp hcontent)
  exact ht (congrArg List.length (List.reverse_injective htext))

/-- A map can have map entries as its values; these are seen then. -/
theorem plainMaps_not_hidden :
    ∃ g, Graph.build [tally] = .ok g ∧ g.checkReferences g.index = .ok () ∧ g.PlainMaps ∧
      (∃ m x p entry, g.Declares m x ∧ (scopeOf g).classify m x = .ok p ∧
        p.kind = .map .string (.message entry) ∧ (g.message entry).mapEntry) ∧
      ∃ o, Options.read "vopkg=p" = .ok o ∧ ¬ HiddenFromBeans (Context.prepare o g [0]) 0 := by
  let g := (Graph.build [tally]).toOption.getD default
  let o : Options := ⟨"p", "p.converter", .type, false⟩
  let ctx := Context.prepare o g [0]
  let a := ctx.names.rename ⟨0, 2⟩ { (default : Naming.MessageNames) with className := "Count" }
  have hg : Graph.build [tally] = .ok g := rfl
  have hm : g.PlainMaps := {
    leaf := Graph.leafEntries_of_forall (by decide +kernel)
    fields := Graph.forall_declares_iff.mpr (by decide +kernel) }
  have hfield : ∃ x ∈ (g.message ⟨0, 0⟩).fields, ((scopeOf g).classify
      (some (g.message ⟨0, 0⟩)) x).toOption.any fun p =>
        p.kind == .map .string (.message ⟨0, 2⟩) := by
    decide +kernel
  have hentry : (g.message ⟨0, 2⟩).mapEntry := by decide +kernel
  obtain ⟨x, hx, hp⟩ := hfield
  obtain ⟨p, hp, hkind⟩ := exists_eq_ok_of_any hp
  have hbeans : (Bean.Contents.of ctx 0).toOption.any fun c =>
      ∃ d ∈ (c.drafts ctx none).head?, ∃ d' ∈ (c.drafts { ctx with names := a } none).head?,
        (d'.written c).2.imported = (d.written c).2.imported ∧
          (({} : Java.Page).writeEach (d'.written c).1).written.length ≠
            (({} : Java.Page).writeEach (d.written c).1).written.length := by
    decide +kernel
  obtain ⟨c, hc, hbeans⟩ := exists_eq_ok_of_any hbeans
  obtain ⟨d, hd, d', hd', hi, ht⟩ := of_decide_eq_true hbeans
  have hrenames : ctx.RenamesEntries { ctx with names := a } :=
    ⟨rfl, rfl, ctx.names.agreesBeside_rename hentry _, Graph.build_linked hg, hm.leaf⟩
  have hw : (ctx.names.file 0).wrapperClass = none := by decide +kernel
  refine ⟨g, hg, by decide +kernel, hm,
    ⟨_, x, p, _, Graph.declares_field hx, hp, beq_iff_eq.mp hkind, hentry⟩, o, rfl, fun h => ?_⟩
  exact beans_ne_of_length hrenames hc hw hd hd' hi ht (h.names a hrenames.names)

end ProtoJava
