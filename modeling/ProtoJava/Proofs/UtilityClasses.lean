import ProtoJava.Compile
import ProtoJava.Proofs.Bean.ClassNames
import ProtoJava.Proofs.Bean.Instances
import ProtoJava.Proofs.Mapping.Mirroring
import ProtoJava.Proofs.Naming.Outermost
import ProtoJava.Proofs.Schema.Entries

/-! # Classes of `java.util` in beans

Beans call the classes of `java.util` by their simple names, and construct them by these without
asking. That is right as long as no class is called like a library type that goes by its simple name
otherwise: names of classes are granted, and granted names are not reserved.
-/

namespace ProtoJava

open Java (ClassName Imports importLine)
open Mapping
open Naming (libraryTypes fileOf rootOf)
open Schema (Graph TypeRef)

/-- The class of a type is called like a library type and goes by its simple name: no wrapper is
around it, its package is a library package, and it is in the class of a map entry, whose name was
not granted. -/
structure Shadows (ctx : Context) (t : TypeRef) : Prop where
  layout : ctx.options.layout = .type
  package : (ctx.names.file (fileOf t)).beanPackage ∈ ["java.lang", "com.google.protobuf"]
  root : ∃ entry, rootOf ctx.graph t = .message entry ∧ (ctx.graph.message entry).mapEntry ∧
    (ctx.graph.message entry).name ∈ libraryTypes

/-- The type of a value, if it has one, shadows no library type. -/
def Clear (ctx : Context) (v : Value) : Prop :=
  ∀ t ∈ v.ref?, ¬ Shadows ctx t

/-- The imports of a source file before any class has been named. -/
def Bean.Draft.start (c : Bean.Contents) (d : Bean.Draft) : Imports :=
  { package := c.package, own := [d.className], nested := d.nested }

/-- The imports of a source file when all of it has been written. -/
def Bean.Draft.imports (c : Bean.Contents) (d : Bean.Draft) : Imports :=
  (d.steps.run (d.start c)).2

/-- What the names of library types mean in a source file with beans, which has the classes of the
outlines `share`. -/
structure KeepsUtilities (ctx : Context) (c : Bean.Contents) (d : Bean.Draft)
    (share : List Bean.Outline) : Prop where
  /-- Classes of `java.util` are always called by their simple names. -/
  calls : ∃ cs, Calls d.steps (d.start c) cs ∧
    List.Forall₂ (fun u name => u ∈ utilities → name = u.simple) cs
      ((d.start c).referenceAll cs).1
  declared : ∀ x ∈ d.className :: d.nested, x ∉ libraryTypes
  imported : ∀ e ∈ (d.imports c).imported, e.1 ∈ libraryTypes → e.2 = "java.util" ++ "." ++ e.1
  /-- What is constructed by a simple name is the class of `java.util`. -/
  instances : ∀ u ∈ utilities, ∀ top ∈ share, ∀ o : Bean.Outline, o.Inside top →
    o.Constructs ctx u → (d.imports c).Binds u ∧
      (c.package = "java.util" ∨ importLine "java.util" u.simple ∈ (d.imports c).lines)

section Drafts

variable {ctx : Context} {c : Bean.Contents} {d : Bean.Draft}

/-- Where no reserved name is declared, library types keep their names. -/
theorem start_unshadowed (h : Bean.Unreserved (d.className :: d.nested)) :
    (d.start c).Unshadowed := by
  have hfree : ∀ x ∈ d.className :: d.nested, x ∉ libraryTypes := fun x hx =>
    Java.not_mem_libraryTypes (h x hx)
  constructor
  case nested => exact fun n hn => hfree n (List.mem_cons_of_mem _ hn)
  case own =>
    intro _ n hn
    obtain rfl := List.mem_singleton.mp hn
    exact hfree _ List.mem_cons_self
  case imported => exact fun e he => absurd he List.not_mem_nil

theorem keepsUtilities {share : List Bean.Outline}
    (hd : Bean.Unreserved (d.className :: d.nested)) (hm : Mentions ClassName.Harmless d.steps)
    (hb : ∀ u ∈ utilities, ∀ top ∈ share, ∀ o : Bean.Outline, o.Inside top →
      o.Constructs ctx u → Binding u d.steps) : KeepsUtilities ctx c d share := by
  have hstart : (d.start c).Unshadowed := start_unshadowed hd
  obtain ⟨cs, hcalls, hcs⟩ := hm.exists_calls (d.start c)
  have hend : d.imports c = ((d.start c).referenceAll cs).2 := hcalls.run
  constructor
  case calls =>
    refine ⟨cs, hcalls, (hstart.referenceAll_utilities hcs).imp fun u name hname hu => ?_⟩
    rw [hname (isUtility_of_mem hu), (simple_of_mem hu).1]
  case declared => exact fun x hx => Java.not_mem_libraryTypes (hd x hx)
  case imported =>
    rw [hend]
    exact (hstart.referenceAll hcs).imported
  case instances =>
    intro u hu top htop o ho hx
    have hbinds : (d.imports c).Binds u := (hb u hu top htop o ho hx _ hstart).2
    have hpackage : (d.imports c).package = c.package := by
      rw [hend]
      exact Java.Imports.referenceAll_package (d.start c) cs
    refine ⟨hbinds, ?_⟩
    by_cases hp : c.package = "java.util"
    · exact Or.inl hp
    · have hline := hbinds.mem_lines (by rwa [hpackage, (isUtility_of_mem hu).package, ne_comm])
      rw [(isUtility_of_mem hu).package, (simple_of_mem hu).2] at hline
      exact Or.inr hline

end Drafts

section Graphs

variable {raws : List Descriptor.File} {g : Graph} (hg : Graph.build raws = .ok g) {o : Options}
  {generate : List Nat} {file : Nat}

include hg

/-- A class called like a library type is that of a type that shadows it, or goes by its qualified
name, or is in `java.util` itself. -/
theorem harmless_typeClass {t : TypeRef} (ht : g.Has t)
    (hclear : ¬ Shadows (Context.prepare o g generate) t) :
    ((Naming.allocate o g generate).typeClass g t).Harmless := by
  intro hname
  have hpackage : ((Naming.allocate o g generate).typeClass g t).package =
      ((Naming.allocate o g generate).file (fileOf t)).beanPackage := by
    cases t <;> rfl
  rw [hpackage]
  by_contra hneither
  obtain ⟨hutil, hlibrary⟩ := not_or.mp hneither
  obtain ⟨hlayout, entry, hroot, hentry, houter⟩ :=
    Naming.reserved_outermost hg ht (Java.isReserved_of_mem_libraryTypes hname)
  refine hclear ⟨hlayout, ?_, entry, hroot, hentry, houter ▸ hname⟩
  have hmem := not_not.mp hlibrary
  simp only [Java.libraryPackages, List.mem_cons, List.not_mem_nil, or_false] at hmem
  change ((Naming.allocate o g generate).file (fileOf t)).beanPackage ∈ _
  simp only [List.mem_cons, List.not_mem_nil, or_false]
  exact hmem.imp_right fun h => h.resolve_left hutil

theorem admits_harmless {v : Value} (hv : ∀ t ∈ v.ref?, g.Has t)
    (hclear : Clear (Context.prepare o g generate) v) :
    (Context.prepare o g generate).Admits ClassName.Harmless v := by
  cases v with
  | scalar v => trivial
  | message id => exact harmless_typeClass hg (t := .message id) (hv _ rfl) (hclear _ rfl)
  | enum id => exact harmless_typeClass hg (t := .enum id) (hv _ rfl) (hclear _ rfl)

/-- If no value in the beans of a file is of a type that shadows a library type, then the classes of
`java.util` are called by their simple names in each of them, which mean these classes. -/
theorem utilities_kept (hfile : file < g.files.length) {c : Bean.Contents}
    (hc : Bean.Contents.of (Context.prepare o g generate) file = .ok c)
    (hclear : ∀ top ∈ c.messages, top.Holds (Clear (Context.prepare o g generate))) :
    let ctx := Context.prepare o g generate
    let wrapper := (ctx.names.file file).wrapperClass
    Bean.beans ctx file = .ok ((c.drafts ctx wrapper).map fun d =>
      Bean.sourceFile c d.className d.nested d.steps) ∧
    List.Forall₂ (KeepsUtilities ctx c) (c.drafts ctx wrapper) (c.shares wrapper) := by
  intro ctx wrapper
  constructor
  · rw [Bean.beans_eq_drafts, hc]
    rfl
  have hharmless : ∀ top ∈ c.messages, top.Holds (ctx.Admits ClassName.Harmless) := by
    refine fun top htop => (hclear top htop).mp ?_
    refine Bean.Contents.of_holds (fun i x hx p hp v hv hvalue => ?_) hc top htop
    refine admits_harmless hg (fun t ht => has_of_classify hg hp t ?_) hvalue
    exact List.mem_append_left _ (List.mem_filterMap.mpr ⟨v, hv, ht⟩)
  have hdrafts : ∀ d ∈ c.drafts ctx wrapper,
      Bean.Unreserved (d.className :: d.nested) ∧ Mentions ClassName.Harmless d.steps := fun d hd =>
    ⟨Bean.drafts_unreserved hg hfile hc d hd,
      Bean.Contents.drafts_mention_utilities Bean.utilities_harmless hharmless wrapper d hd⟩
  have hbinding := Bean.Contents.drafts_binding hharmless wrapper
  refine ((List.forall₂_and_left _ _).mpr ⟨hdrafts, hbinding⟩).imp ?_
  exact fun d share ⟨⟨hn, hm⟩, hb⟩ => keepsUtilities hn hm hb

end Graphs

/-- No type shadows a library type where no map entry is called like one. -/
theorem clear_of_names {ctx : Context}
    (h : ∀ f ∈ ctx.graph.files, ∀ m ∈ f.messages, m.mapEntry → m.name ∉ libraryTypes) (v : Value) :
    Clear ctx v := by
  rintro t - ⟨-, -, entry, -, hentry, hname⟩
  have hdeclared : ctx.graph.message entry ≠ default := fun hdefault =>
    Bool.noConfusion ((congrArg (·.mapEntry) hdefault).symm.trans hentry)
  obtain ⟨f, hf, hm⟩ := Graph.exists_file hdeclared
  exact h f hf _ hm hentry hname

/-- Messages that are called like library types, in `java.util` if beans are in `java`. -/
def shelves : List Descriptor.File := [
  { name := "u.proto"
    package := "util"
    messages := [{ name := "List", nested := [{ name := "Map" }] }] },
  { name := "s.proto"
    package := "s"
    dependencies := ["u.proto"]
    messages := [{
      name := "HashMap"
      fields := [
        { name := "lists", number := 1, type := 11, label := 3, typeName := ".util.List" },
        { name := "map", number := 2, type := 11, label := 1, typeName := ".util.List.Map" }] }] }]

theorem utilities_kept_shelves :
    ∃ o g c, Options.read "vopkg=java" = .ok o ∧ Graph.build shelves = .ok g ∧
      Bean.Contents.of (Context.prepare o g [0, 1]) 1 = .ok c ∧
      (∃ top ∈ c.messages, top.Constructs (Context.prepare o g [0, 1]) arrayListClass) ∧
      List.Forall₂ (KeepsUtilities (Context.prepare o g [0, 1]) c)
        (c.drafts (Context.prepare o g [0, 1]) none) (c.shares none) := by
  let g := (Graph.build shelves).toOption.getD default
  let o : Options := ⟨"java", "java.converter", .type, false⟩
  let ctx := Context.prepare o g [0, 1]
  have hg : Graph.build shelves = .ok g := rfl
  have hcontents : (Bean.Contents.of ctx 1).toOption.any fun c => ∃ top ∈ c.messages,
      ∃ m ∈ top.fields, m.names.defaultConst = none ∧ m.property.nullable = false ∧
        m.property.kind = .message ⟨0, 0⟩ true := by
    decide +kernel
  obtain ⟨c, hc, hconstructs⟩ := exists_eq_ok_of_any hcontents
  obtain ⟨top, htop, m, hm, hconst, hnullable, hkind⟩ := of_decide_eq_true hconstructs
  have hinitializer : m.property.initializer ctx m.names.defaultConst =
      Property.newInstance arrayListClass := by
    simp [Property.initializer, hconst, hnullable, hkind]
  have hclear : ∀ v, Clear ctx v := clear_of_names (by decide)
  have hw : (ctx.names.file 1).wrapperClass = none := by decide
  obtain ⟨-, hkept⟩ := utilities_kept hg (o := o) (show 1 < g.files.length by decide) hc
    (Bean.Contents.of_holds (fun _ _ _ _ _ v _ => hclear v) hc)
  exact ⟨o, g, c, rfl, hg, hc, ⟨top, htop, top.constructs_of_mem hm hinitializer⟩, hw ▸ hkept⟩

/-- A message in a map entry that is called like a library type. -/
def drawers : List Descriptor.File := [
  { name := "a.proto"
    package := "google.protobuf"
    messages := [{
      name := "List"
      fields := [
        { name := "key", number := 1, type := 9, label := 1 },
        { name := "value", number := 2, type := 5, label := 1 }]
      mapEntry := true
      nested := [{ name := "Inner" }] }] },
  { name := "b.proto"
    package := "q"
    dependencies := ["a.proto"]
    messages := [{
      name := "M"
      fields := [
        { name := "x", number := 1, type := 11, label := 1,
          typeName := ".google.protobuf.List.Inner" },
        { name := "y", number := 2, type := 5, label := 3 }] }] }]

/-- A class in that of a map entry takes the name of `java.util.List`, if it is named first. -/
theorem utilities_not_kept :
    ∃ o g c, Options.read "vopkg=com" = .ok o ∧ Graph.build drawers = .ok g ∧
      g.checkReferences g.index = .ok () ∧
      (∀ m x, g.Declares m x → ∀ entry ∈ g.target? x, (g.message entry).mapEntry = false) ∧
      Bean.Contents.of (Context.prepare o g [1]) 1 = .ok c ∧
      ∃ d ∈ c.drafts (Context.prepare o g [1]) none,
        ("List", "com.google.protobuf.List") ∈ (d.imports c).imported ∧
        "public java.util.List<Integer> y = new ArrayList<>();".toList <:+:
          (Bean.sourceFile c d.className d.nested d.steps).content.toList := by
  let g := (Graph.build drawers).toOption.getD default
  let o : Options := ⟨"com", "com.converter", .type, false⟩
  let ctx := Context.prepare o g [1]
  have hg : Graph.build drawers = .ok g := rfl
  let text (c : Bean.Contents) (d : Bean.Draft) : List Char :=
    (({} : Java.Page).writeEach (d.steps.run (d.start c)).1).written.reverse
  have hcontents : (Bean.Contents.of ctx 1).toOption.any fun c =>
      ∃ d ∈ c.drafts ctx none, ("List", "com.google.protobuf.List") ∈ (d.imports c).imported ∧
        "public java.util.List<Integer> y = new ArrayList<>();".toList <:+: text c d := by
    decide +kernel
  obtain ⟨c, hc, hdrafts⟩ := exists_eq_ok_of_any hcontents
  obtain ⟨d, hd, himported, htext⟩ := of_decide_eq_true hdrafts
  refine ⟨o, g, c, rfl, hg, by decide, Graph.forall_declares_iff.mpr (by decide),
    hc, d, hd, himported, ?_⟩
  have hcontent : (Bean.sourceFile c d.className d.nested d.steps).content.toList =
      (Java.prologue c.package c.file (d.imports c)).toList ++ text c d := by
    change (Java.prologue c.package c.file (d.imports c) ++ String.ofList (text c d)).toList = _
    rw [String.toList_append, String.toList_ofList]
  rw [hcontent]
  exact htext.trans (List.suffix_append _ _).isInfix

end ProtoJava
