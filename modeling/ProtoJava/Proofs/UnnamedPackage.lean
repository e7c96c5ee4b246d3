import ProtoJava.Compile
import ProtoJava.Proofs.Bean.Mentions
import ProtoJava.Proofs.Converter.Mentions
import ProtoJava.Proofs.Mapping.Faults
import ProtoJava.Proofs.Naming.Packages

/-! # Classes of the unnamed package

Nothing can be imported from the unnamed package. Beans and converters have packages of their own;
for the classes of protobuf-java there is a check, which looks at the types of the fields of each
file. The values of a map are of the type of a field of its entries, which the check finds if the
file itself declares these.
-/

namespace ProtoJava

open Java (ClassName libraryPackages)
open Mapping
open Schema (Graph MessageId EnumId)

/-- A class in a named package. -/
def Packaged (c : ClassName) : Prop :=
  c.package ≠ ""

/-- The class of protobuf-java for a value, if it has one. -/
def Mapping.Context.protoClass? (ctx : Context) : Value → Option ClassName
  | .scalar _ => none
  | .message id => some (ctx.names.protoMessageClass ctx.graph id)
  | .enum id => some (ctx.names.protoEnumClass ctx.graph id)

/-- A class of protobuf-java for the values of a map in a file, where another file declares the
entries of the map. -/
def ForeignValue (ctx : Context) (file : Nat) (c : ClassName) : Prop :=
  ∃ m ∈ (ctx.graph.file file).messages, ∃ field ∈ m.fields, ∃ entry key v,
    ctx.value field = .ok (.message entry) ∧ field.isRepeated ∧
      (ctx.graph.message entry).mapEntry ∧ entry.file ≠ file ∧
        ctx.mapOf entry = .ok (.map key v) ∧ ctx.protoClass? v = some c

/-- A text that names only classes with a property, and imports only such classes. -/
structure Mapping.Names {α : Type} (P : ClassName → Prop) (x : Referring α) : Prop where
  mentions : Mentions P x
  imported : ∀ i : Java.Imports, i.imported = [] →
    ∀ e ∈ (x.run i).2.imported, ∃ c, P c ∧ e = importEntry c

theorem Mapping.Mentions.names {α : Type} {P : ClassName → Prop} {x : Referring α}
    (h : Mentions P x) : Names P x := by
  refine ⟨h, fun i hi e he => ?_⟩
  have he := h.imported he
  rw [hi] at he
  exact he.resolve_left List.not_mem_nil

section Checked

variable {text : String} {raws : List Descriptor.File} {g : Graph} {o : Options}
  {generate : List Nat} {file : Nat}

/-- What the names of the files of a converter come from. -/
theorem namedFiles_ok {ctx : Context} {named : List Nat} (h : namedFiles ctx file = .ok named)
    (hm : (ctx.graph.file file).messages.all (·.mapEntry) = false) :
    file ∈ named ∧ ∀ m ∈ (ctx.graph.file file).messages, ∀ field ∈ m.fields, ∃ n?,
      namedFile? ctx (ctx.graph.file file) field = .ok n? ∧ ∀ n ∈ n?, n ∈ named := by
  simp only [namedFiles, hm, Bool.false_eq_true, if_false, bind_eq_ok_iff,
    pure_eq_ok_iff] at h
  obtain ⟨n?s, hn, rfl⟩ := h
  refine ⟨List.mem_cons_self, fun m hmem field hfield => ?_⟩
  obtain ⟨n?, hn?, hok⟩ :=
    forall₂_exists (mapM_eq_ok_iff.mp hn) (List.mem_flatMap.mpr ⟨m, hmem, hfield⟩)
  refine ⟨n?, hok, fun n hn => List.mem_cons_of_mem _ ?_⟩
  exact List.mem_filterMap.mpr ⟨n?, hn?, hn⟩

theorem checkJavaPackages_ok {ctx : Context} (h : checkJavaPackages ctx file = .ok ()) :
    ∃ named, namedFiles ctx file = .ok named ∧
      ∀ n ∈ named, (ctx.names.file n).protoPackage ≠ "" := by
  obtain ⟨named, hnamed, h⟩ := bind_eq_ok_iff.mp h
  refine ⟨named, hnamed, fun n hn he => ?_⟩
  split at h
  · exact nomatch h
  · next hnone => simpa [he] using List.find?_eq_none.mp hnone n hn

/-- The check has looked at the class of each value that is of the type of a field, unless enums
are numbers. -/
theorem packaged_protoClass (hg : Graph.build raws = .ok g)
    (h : checkJavaPackages (Context.prepare o g generate) file = .ok ())
    (hm : (g.file file).messages.all (·.mapEntry) = false) {m : Schema.Message}
    (hmem : m ∈ (g.file file).messages) {field : Schema.Field} (hfield : field ∈ m.fields)
    {v : Value} (hv : (scopeOf g).value field = .ok v)
    (hd : ∀ id, v = .enum id → (g.file file).dialect ≠ .proto3) {c : ClassName}
    (hc : (Context.prepare o g generate).protoClass? v = some c) : Packaged c := by
  obtain ⟨named, hnamed, hpackages⟩ := checkJavaPackages_ok h
  obtain ⟨n?, hn, hin⟩ := (namedFiles_ok hnamed hm).2 m hmem field hfield
  cases v with
  | scalar v => exact nomatch hc
  | message id =>
    obtain ⟨ht, hid⟩ := (value_eq_message_iff hg).mp hv
    have hisNamed : field.type.isNamed :=
      Scalar.ofType?_eq_none_iff.mp (Scalar.ofType?_of_isMessage ht)
    have hn? : n? = some id.file := by
      simpa [namedFile?, hisNamed, Context.prepare, hid.resolve, ofSchema, Except.map]
        using hn.symm
    obtain rfl := Option.some.inj hc
    exact hpackages _ (hin _ hn?)
  | enum id =>
    obtain ⟨ht, hid⟩ := (value_eq_enum_iff hg).mp hv
    have hisNamed : field.type.isNamed := by
      rw [ht]
      rfl
    have hn? : n? = some id.file := by
      simpa [namedFile?, hisNamed, Context.prepare, hid.resolve, ofSchema, Except.map, hd id rfl]
        using hn.symm
    obtain rfl := Option.some.inj hc
    exact hpackages _ (hin _ hn?)

theorem ne_empty_of_isPackageName {package : String}
    (h : Naming.isPackageName package.toList) : package ≠ "" := by
  rintro rfl
  exact Bool.noConfusion h

theorem admits_packaged (ho : Options.read text = .ok o) (hg : Graph.build raws = .ok g)
    {field : Schema.Field} {v : Value} (hv : (scopeOf g).value field = .ok v) :
    (Context.prepare o g generate).Admits Packaged v := by
  have hbean : ∀ {i}, i < g.files.length →
      ((Naming.allocate o g generate).file i).beanPackage ≠ "" := fun hi =>
    ne_empty_of_isPackageName
      (Naming.isPackageName_beanPackage (Options.read_packages ho).1 generate hi)
  cases v with
  | scalar v => trivial
  | message id => exact hbean (has_of_value hg hv _ rfl).1
  | enum id => exact hbean (has_of_value hg hv _ rfl).1

/-- A converter names classes in named packages for a value, if its class in protobuf-java is. -/
theorem site_admits (ho : Options.read text = .ok o) (hg : Graph.build raws = .ok g)
    {P : ClassName → Prop} (hP : ∀ c, Packaged c → P c) {field : Schema.Field} {v : Value}
    (hv : (scopeOf g).value field = .ok v) (hproto : (∀ id, v = .enum id →
      (g.file file).dialect ≠ .proto3) →
        ∀ c, (Context.prepare o g generate).protoClass? v = some c → P c) :
    (Converter.Site.mk (Context.prepare o g generate) file).Admits P v := by
  have hbean : (Context.prepare o g generate).Admits Packaged v := admits_packaged ho hg hv
  cases v with
  | scalar v => trivial
  | message id =>
    refine ⟨hP _ hbean, hproto (by simp) _ rfl, hP _ ?_⟩
    exact ne_empty_of_isPackageName (Options.read_packages ho).2
  | enum id =>
    refine ⟨hP _ hbean, fun hopen => hproto ?_ _ rfl⟩
    rintro - - hd
    simp [Converter.Site.openEnums, Converter.Site.source, Context.prepare, hd] at hopen

/-- A value in a message of a checked file is of a class in a named package, or of a map whose
entries another file declares. -/
theorem protoClass_of_classify (hg : Graph.build raws = .ok g)
    (h : checkJavaPackages (Context.prepare o g generate) file = .ok ())
    (hm : (g.file file).messages.all (·.mapEntry) = false) {m : Schema.Message}
    (hmem : m ∈ (g.file file).messages) {field : Schema.Field} (hfield : field ∈ m.fields)
    {p : Property} (hp : (scopeOf g).classify (some m) field = .ok p) {v : Value}
    (hv : v ∈ p.values) : (∃ x, (scopeOf g).value x = .ok v) ∧
      ((∀ id, v = .enum id → (g.file file).dialect ≠ .proto3) →
        ∀ c, (Context.prepare o g generate).protoClass? v = some c →
          Packaged c ∨ ForeignValue (Context.prepare o g generate) file c) := by
  rcases value_of_classify hp hv with hvalue | ⟨entry, key, hvalue, hr, hentry, hmap⟩
  · exact ⟨⟨_, hvalue⟩, fun hd c hc =>
      Or.inl (packaged_protoClass hg h hm hmem hfield hvalue hd hc)⟩
  · obtain ⟨x, hx, hxv⟩ := mapOf_ok hmap
    refine ⟨⟨x, hxv⟩, fun hd c hc => ?_⟩
    by_cases hown : entry.file = file
    · obtain ⟨-, hid⟩ := (value_eq_message_iff hg).mp hvalue
      have hdeclared : g.message entry ∈ (g.file file).messages := by
        rw [← hown]
        exact Schema.File.message_mem hid.lt
      exact Or.inl (packaged_protoClass hg h hm hdeclared hx hxv hd hc)
    · exact Or.inr ⟨m, hmem, field, hfield, entry, key, v, hvalue, hr, hentry, hown, hmap, hc⟩

theorem packaged_of_library {c : ClassName} (h : c.package ∈ libraryPackages) : Packaged c := by
  rintro hempty
  rw [hempty] at h
  revert h
  decide

end Checked

/-- After the check of its package, the beans of a file name only classes in named packages. Its
converter does so, too, but for values of maps whose entries another file declares. -/
theorem checkJavaPackages_names {text : String} {o : Options} (ho : Options.read text = .ok o)
    {raws : List Descriptor.File} {g : Graph} (hg : Graph.build raws = .ok g)
    {generate : List Nat}
    (hcheck : generate.forM (checkJavaPackages (Context.prepare o g generate)) = .ok ())
    {file : Nat} (hfile : file ∈ generate) :
    let ctx := Context.prepare o g generate
    (∀ c, Bean.Contents.of ctx file = .ok c →
      ∀ d ∈ c.drafts ctx (ctx.names.file file).wrapperClass, Names Packaged d.steps) ∧
    ∀ shapes, (Converter.Site.mk ctx file).shapes = .ok shapes →
      ∀ name, Names (fun c => Packaged c ∨ ForeignValue ctx file c)
        ((Converter.Site.mk ctx file).classSteps name shapes) := by
  intro ctx
  have hcheck := forM_eq_ok_iff.mp hcheck file hfile
  constructor
  case left =>
    intro c hc d hd
    have hvalues : ∀ o ∈ c.messages, o.Holds (ctx.Admits Packaged) := by
      refine Bean.Contents.of_holds (fun i f hf p hp v hv => ?_) hc
      rcases value_of_classify hp hv with hvalue | ⟨entry, key, -, -, -, hmap⟩
      · exact admits_packaged ho hg hvalue
      · obtain ⟨x, -, hx⟩ := mapOf_ok hmap
        exact admits_packaged ho hg hx
    exact (Bean.Contents.drafts_mention (fun _ => packaged_of_library) hvalues _ d hd).names
  case right =>
    intro shapes hshapes name
    let P : ClassName → Prop := fun c => Packaged c ∨ ForeignValue ctx file c
    refine Mentions.names (Converter.classSteps_mentions (P := P)
      (fun _ h => Or.inl (packaged_of_library h)) (fun p hp => ?_) name)
    obtain ⟨i, hi, hid, hshape⟩ := Converter.Site.shapes_ok hshapes p hp
    obtain ⟨hi, hentry⟩ := List.mem_filter.mp hi
    have hi : i < (g.file file).messages.length := List.mem_range.mp hi
    have hmem : (g.file file).message i ∈ (g.file file).messages := Schema.File.message_mem hi
    have hm : (g.file file).messages.all (·.mapEntry) = false := by
      refine Bool.eq_false_iff.mpr fun hall => ?_
      have hnot : ((g.file file).message i).mapEntry = false := Bool.not_eq_eq_eq_not.mp hentry
      exact Bool.noConfusion (hnot.symm.trans (List.all_eq_true.mp hall _ hmem))
    obtain ⟨named, hnamed, hpackages⟩ := checkJavaPackages_ok hcheck
    have hlt : file < g.files.length := Naming.file_lt (Or.inl hi)
    have hbean := Naming.isPackageName_beanPackage (Options.read_packages ho).1 generate hlt
    constructor
    · rw [hid]
      exact ⟨Or.inl (ne_empty_of_isPackageName hbean),
        Or.inl (hpackages _ (namedFiles_ok hnamed hm).1)⟩
    · refine Shape.of_holds hshape fun field hfield property hp v hv => ?_
      obtain ⟨⟨x, hx⟩, hproto⟩ := protoClass_of_classify hg hcheck hm hmem hfield hp hv
      exact site_admits ho hg (fun _ => Or.inl) hx hproto

/-- A file whose message maps names to messages of another file. -/
def catalogue : List Descriptor.File := [
  { name := "part.proto"
    package := "parts"
    messages := [{ name := "Part" }] },
  { name := "list.proto"
    package := "lists"
    dependencies := ["part.proto"]
    messages := [{
      name := "List"
      fields := [
        { name := "parts", number := 1, type := 11, label := 3,
          typeName := ".lists.List.PartsEntry" }]
      nested := [{
        name := "PartsEntry"
        fields := [
          { name := "key", number := 1, type := 9, label := 1 },
          { name := "value", number := 2, type := 11, label := 1, typeName := ".parts.Part" }]
        mapEntry := true }] }] }]

theorem checkJavaPackages_names_catalogue :
    ∃ o g, Options.read "vopkg=p" = .ok o ∧ Graph.build catalogue = .ok g ∧
      [1].forM (checkJavaPackages (Context.prepare o g [1])) = .ok () ∧
      ∃ shapes, (Converter.Site.mk (Context.prepare o g [1]) 1).shapes = .ok shapes ∧
        shapes.length = 1 ∧
        Names (fun c => Packaged c ∨ ForeignValue (Context.prepare o g [1]) 1 c)
          ((Converter.Site.mk (Context.prepare o g [1]) 1).classSteps "Converter" shapes) := by
  let o : Options := ⟨"p", "p.converter", .type, false⟩
  let g := (Graph.build catalogue).toOption.getD default
  have ho : Options.read "vopkg=p" = .ok o := rfl
  have hg : Graph.build catalogue = .ok g := rfl
  have hcheck : [1].forM (checkJavaPackages (Context.prepare o g [1])) = .ok () := by
    decide +kernel
  have hshapes : ((Converter.Site.mk (Context.prepare o g [1]) 1).shapes.toOption.any
      (·.length == 1)) := by
    decide +kernel
  obtain ⟨shapes, hok, hlength⟩ := exists_eq_ok_of_any hshapes
  exact ⟨o, g, ho, hg, hcheck, shapes, hok, beq_iff_eq.mp hlength,
    (checkJavaPackages_names ho hg hcheck (List.mem_singleton_self 1)).2 shapes hok _⟩

/-- A map whose entries another file declares, with values of a message that has no package. -/
def borrowed : List Descriptor.File := [
  { name := "c.proto"
    messages := [{ name := "C" }] },
  { name := "b.proto"
    package := "b"
    dependencies := ["c.proto"]
    messages := [{
      name := "Entry"
      fields := [
        { name := "key", number := 1, type := 9, label := 1 },
        { name := "value", number := 2, type := 11, label := 1, typeName := ".C" }]
      mapEntry := true }] },
  { name := "a.proto"
    package := "a"
    dependencies := ["b.proto"]
    messages := [{
      name := "A"
      fields := [
        { name := "items", number := 1, type := 11, label := 3, typeName := ".b.Entry" }] }] }]

/-- A converter can name a class in the unnamed package although all checks pass. -/
theorem checkJavaPackages_misses :
    ∃ o g, Options.read "vopkg=p" = .ok o ∧ Graph.build borrowed = .ok g ∧
      g.checkReferences g.index = .ok () ∧
      [2].forM (checkJavaPackages (Context.prepare o g [2])) = .ok () ∧
      ∃ shapes, (Converter.Site.mk (Context.prepare o g [2]) 2).shapes = .ok shapes ∧
        ¬ Mentions Packaged
          ((Converter.Site.mk (Context.prepare o g [2]) 2).classSteps "AConverter" shapes) := by
  let o : Options := ⟨"p", "p.converter", .type, false⟩
  let g := (Graph.build borrowed).toOption.getD default
  let s : Converter.Site := ⟨Context.prepare o g [2], 2⟩
  let i : Java.Imports := { package := "p.converter", own := ["AConverter"] }
  have himported : s.shapes.toOption.any fun shapes =>
      ((s.classSteps "AConverter" shapes).run i).2.imported.contains
        ("COuterClass", ".COuterClass") := by
    decide +kernel
  obtain ⟨shapes, hok, hcontains⟩ := exists_eq_ok_of_any himported
  refine ⟨o, g, rfl, rfl, by decide +kernel, by decide +kernel, shapes, hok, fun h => ?_⟩
  rcases h.imported (List.contains_iff_mem.mp hcontains) with hmem | ⟨c, hc, he⟩
  · simp [i] at hmem
  · obtain ⟨hname, hfull⟩ := Prod.mk.inj he
    rw [← hname] at hfull
    exact hc (by simpa using congrArg (fun t => t.toList.length) hfull)

end ProtoJava
