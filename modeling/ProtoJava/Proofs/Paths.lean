import ProtoJava.Proofs.Bean.Declarations
import ProtoJava.Proofs.Java.Verified
import ProtoJava.Proofs.Naming.Wrappers
import ProtoJava.Proofs.Schema.Placing
import ProtoJava.Proofs.Verified

/-! # Paths of source files

The path of a source file tells the class that it declares, so the files for a request have
different paths just if those classes are different. Among the beans they are, as among the
converters; a bean may be the same class as a converter.
-/

namespace ProtoJava

namespace Java

variable {package package' name name' : String}

theorem slash_not_mem_of_isPackageName (h : Naming.isPackageName package.toList) :
    '/' ∉ package.toList := by
  intro hm
  rcases Text.mem_pieces_of_mem '.' hm with hc | ⟨p, hp, hc⟩
  · exact absurd hc (by decide)
  · have hs := Naming.isSegment_iff.mp (Naming.isPackageName_iff.mp h p hp)
    exact absurd (hs.2 _ hc) (by decide)

/-- The directory of a package tells the package. -/
theorem package_of_directory (h : Naming.isPackageName package.toList) :
    (package.toList.map fun c => if c = '.' then '/' else c).map
      (fun c => if c = '/' then '.' else c) = package.toList := by
  have hslash := slash_not_mem_of_isPackageName h
  rw [List.map_map]
  conv_rhs => rw [← List.map_id package.toList]
  refine List.map_congr_left fun c hc => ?_
  by_cases hdot : c = '.'
  · simp [hdot]
  · have hne : c ≠ '/' := fun he => hslash (he ▸ hc)
    simp [hdot, hne]

/-- The path of a source file tells the package and the name. -/
theorem sourcePath_injective (hp : Naming.isPackageName package.toList)
    (hp' : Naming.isPackageName package'.toList) (hn : '/' ∉ name.toList)
    (hn' : '/' ∉ name'.toList) (h : sourcePath package name = sourcePath package' name') :
    package = package' ∧ name = name' := by
  have hl := congrArg String.toList h
  rw [toList_sourcePath (ne_empty_of_isPackageName hp),
    toList_sourcePath (ne_empty_of_isPackageName hp')] at hl
  obtain ⟨hd, hx⟩ := Text.append_sep_injective (by simp [hn]) (by simp [hn']) hl
  refine ⟨String.toList_inj.mp ?_, String.toList_inj.mp (List.append_cancel_right hx)⟩
  rw [← package_of_directory hp, hd, package_of_directory hp']

/-- A source file that declares a class of a package. -/
def Artifact.Declares (a : Artifact) (c : ClassName) : Prop :=
  ∃ source file imports page, a = .assemble (sourcePath c.package c.simple) source
    (prologue c.package file imports) page

variable {a : Artifact} {c : ClassName}

theorem Artifact.Declares.path (h : a.Declares c) : a.path = sourcePath c.package c.simple := by
  obtain ⟨source, file, imports, page, rfl⟩ := h
  rfl

/-- A verified source file is in the directory of its package, and no deeper. -/
theorem Artifact.Declares.slash_not_mem (h : a.Declares c)
    (hp : Naming.isPackageName c.package.toList) (hv : a.verify = .ok ()) :
    '/' ∉ c.simple.toList := by
  have hhead := ((Artifact.verify_eq_ok_iff a).mp hv).1
  obtain ⟨source, file, imports, page, rfl⟩ := h
  refine (checkHead_eq_ok_iff hp file imports page.text.toList).mp ?_
  rw [← String.toList_append]
  exact hhead

end Java

namespace Naming

open Java (ClassName)
open Schema (Graph)

/-- The names of the classes that source files with beans of a file declare. -/
def Allocation.sourceNames (a : Allocation) (g : Graph) (i : Nat) : List String :=
  match (a.file i).wrapperClass with
  | some wrapper => if (a.directNames g i).isEmpty then [] else [wrapper]
  | none => a.directNames g i

/-- The classes that source files with beans declare. -/
def Allocation.beanClasses (a : Allocation) (g : Graph) (generate : List Nat) : List ClassName :=
  generate.flatMap fun i => (a.sourceNames g i).map (.top (a.file i).beanPackage)

/-- The converters, which only files with messages have. -/
def Allocation.converterClasses (a : Allocation) (g : Graph) (package : String)
    (generate : List Nat) : List ClassName :=
  (generate.filter fun i => (g.file i).messages.any (!·.mapEntry)).map (a.converterClass package)

section Distinct

variable {g : Graph} {o : Options} {generate : List Nat} {i : Nat}

theorem sourceNames_nodup (hl : (g.file i).Linked) (hi : i < g.files.length) :
    ((allocate o g generate).sourceNames g i).Nodup := by
  have htop : Distinct [] ((allocate o g generate).topNames g i) := topNames_distinct hl hi
  rw [Allocation.topNames_eq_append] at htop
  unfold Allocation.sourceNames
  split
  · split
    · exact List.nodup_nil
    · exact List.nodup_singleton _
  · exact (List.nodup_append'.mp htop.1).1

theorem beanClasses_nodup (hl : ∀ i, (g.file i).Linked) (hd : generate.Nodup)
    (hi : ∀ i ∈ generate, i < g.files.length) :
    ((allocate o g generate).beanClasses g generate).Nodup := by
  refine List.nodup_flatMap.mpr ⟨fun i hm => ?_, ?_⟩
  · refine (sourceNames_nodup (hl i) (hi i hm)).map fun n n' h => ?_
    exact (List.cons.inj (ClassName.mk.inj h).2).1
  · refine hd.imp_of_mem fun {i j} hm hm' hne => List.disjoint_left.mpr fun c hc hc' => hne ?_
    obtain ⟨n, -, rfl⟩ := List.mem_map.mp hc
    obtain ⟨n', -, h⟩ := List.mem_map.mp hc'
    exact allocate_packages (hi i hm) (hi j hm') (ClassName.mk.inj h).1.symm

theorem converterClasses_nodup (hd : generate.Nodup) (hi : ∀ i ∈ generate, i < g.files.length)
    (package : String) :
    ((allocate o g generate).converterClasses g package generate).Nodup := by
  refine (hd.filter _).map_on fun i hm j hm' h => ?_
  have hname := (List.cons.inj (ClassName.mk.inj h).2).1
  exact allocate_converters (hi i (List.mem_of_mem_filter hm)) (hi j (List.mem_of_mem_filter hm'))
    hname

end Distinct

end Naming

namespace Bean

open Java (Artifact ClassName)
open Mapping

variable {ctx : Context} {i j : Nat} {c : Contents} {as : List Artifact}

theorem sourceFile_declares (c : Contents) (className : String) (nested : List String)
    (steps : Referring (List Java.Step)) :
    (sourceFile c className nested steps).Declares (.top c.package className) :=
  ⟨_, _, _, _, rfl⟩

/-- The names of the contents of a file. -/
def Contents.names (c : Contents) : List String :=
  c.messages.map Outline.className ++ c.enums.map (·.names.className) ++ c.holder.toList.map (·.1)

theorem Contents.names_eq (h : Contents.of ctx i = .ok c) :
    c.names = ctx.names.directNames ctx.graph i := by
  obtain ⟨extensions, hm, -, -, he, hh⟩ := Contents.of_ok h
  have hmessages : c.messages.map Outline.className =
      ((ctx.graph.file i).topMessages.filter fun j =>
        !((ctx.graph.file i).message j).mapEntry).map fun j =>
          (ctx.names.message ⟨i, j⟩).className := by
    rw [eq_comm, ← List.forall₂_eq_eq_eq, List.forall₂_map_left_iff, List.forall₂_map_right_iff]
    exact hm.imp fun j o => Outline.of_className
  have hholder : c.holder.toList.map (·.1) = (ctx.names.file i).extensionsClass.toList := by
    rw [hh]
    cases (ctx.names.file i).extensionsClass <;> rfl
  rw [Contents.names, hmessages, hholder, he, List.map_map]
  rfl

theorem Contents.separate_declares (c : Contents) (ctx : Context) :
    List.Forall₂ Artifact.Declares (c.separate ctx) (c.names.map (.top c.package)) := by
  simp only [Contents.separate, Contents.names, List.map_append, List.map_map]
  refine List.rel_append (List.rel_append ?_ ?_) ?_ <;>
    rw [List.forall₂_map_left_iff, List.forall₂_map_right_iff, List.forall₂_same] <;>
    exact fun _ _ => sourceFile_declares ..

/-- The source files with the beans of a file declare its classes, or the wrapper around them. -/
theorem beans_declares (h : beans ctx i = .ok as)
    (hx : (ctx.names.file i).extensionsClass.isSome = !(ctx.graph.file i).extensions.isEmpty) :
    List.Forall₂ Artifact.Declares as
      ((ctx.names.sourceNames ctx.graph i).map (.top (ctx.names.file i).beanPackage)) := by
  obtain ⟨c, hc, ⟨wrapper, hw, rfl⟩ | ⟨hw, rfl⟩⟩ := beans_ok h
  all_goals rw [← Contents.of_package hc, Naming.Allocation.sourceNames, hw]
  · have hempty : (ctx.names.directNames ctx.graph i).isEmpty =
        (c.messages.isEmpty && c.enums.isEmpty && c.file.extensions.isEmpty) := by
      obtain ⟨extensions, -, -, hf, -, hh⟩ := Contents.of_ok hc
      have hholder : c.holder.toList = [] ↔ c.file.extensions = [] := by
        rw [hf, hh]
        cases hclass : (ctx.names.file i).extensionsClass <;> rw [hclass] at hx <;>
          simpa using hx
      rw [← Contents.names_eq hc, Contents.names, Bool.eq_iff_iff]
      simp only [List.isEmpty_iff, List.append_eq_nil_iff, List.map_eq_nil_iff, hholder,
        Bool.and_eq_true]
    simp only [Contents.wrapped, hempty]
    split
    · exact List.Forall₂.nil
    · exact List.Forall₂.cons (sourceFile_declares ..) List.Forall₂.nil
  · rw [← Contents.names_eq hc]
    exact c.separate_declares ctx

end Bean

namespace Converter

open Java (Artifact ClassName)
open Mapping

variable {ctx : Context} {i : Nat} {a? : Option Artifact}

theorem isEmpty_convertedMessages (s : Site) :
    s.convertedMessages.isEmpty = !s.source.messages.any (!·.mapEntry) := by
  rw [Bool.eq_iff_iff]
  simp only [Site.convertedMessages, List.isEmpty_iff, List.filter_eq_nil_iff, List.mem_range,
    Bool.not_eq_true', List.any_eq_false]
  constructor
  · intro h m hm
    obtain ⟨k, hk, rfl⟩ := Schema.File.exists_message hm
    exact h k hk
  · exact fun h k hk => h _ (Schema.File.message_mem hk)

/-- A file with messages gets a source file that declares its converter. -/
theorem converter_declares (h : converter ctx i = .ok a?) :
    if (ctx.graph.file i).messages.any (!·.mapEntry) then
      ∃ a, a? = some a ∧ a.Declares (ctx.names.converterClass ctx.options.converterPackage i)
    else a? = none := by
  let s : Site := { toContext := ctx, file := i }
  have hempty : s.convertedMessages.isEmpty = !(ctx.graph.file i).messages.any (!·.mapEntry) :=
    isEmpty_convertedMessages s
  cases hm : (ctx.graph.file i).messages.any (!·.mapEntry) with
  | false =>
    rw [hm, Bool.not_false] at hempty
    rw [converter, if_pos hempty, pure_eq_ok_iff] at h
    simpa using h.symm
  | true =>
    rw [hm, Bool.not_true] at hempty
    rw [converter, if_neg (show ¬ s.convertedMessages.isEmpty by simp [hempty])] at h
    obtain ⟨shapes, -, h⟩ := bind_eq_ok_iff.mp h
    exact ⟨_, (pure_eq_ok_iff.mp h).symm, _, _, _, _, rfl⟩

/-- The source files with converters declare the converters of all files with messages. -/
theorem converters_declare {generate : List Nat} {as? : List (Option Artifact)}
    (h : List.Forall₂ (fun i a? => converter ctx i = .ok a?) generate as?) :
    List.Forall₂ Artifact.Declares (as?.filterMap id)
      (ctx.names.converterClasses ctx.graph ctx.options.converterPackage generate) := by
  induction h with
  | nil => exact List.Forall₂.nil
  | @cons i a? generate as? ha _ ih =>
    have hd := converter_declares ha
    unfold Naming.Allocation.converterClasses at ih ⊢
    rw [List.filter_cons]
    split at hd
    · next hm =>
      obtain ⟨a, rfl, hd⟩ := hd
      rw [if_pos hm]
      exact List.Forall₂.cons hd ih
    · next hm =>
      subst hd
      rw [if_neg hm]
      exact ih

end Converter

section Compiled

open Java (Artifact sourcePath)
open Mapping (Context)
open Schema (Graph)

variable {r : Descriptor.Request} {o : Options} {g : Graph} {generate : List Nat}
  {as : List Artifact}

theorem filesToGenerate_eq_ok_iff {names : List String} : filesToGenerate g names = .ok generate ↔
    names ≠ [] ∧ List.Forall₂ (fun name i => g.fileNamed? name = some i) names generate := by
  unfold filesToGenerate
  cases names with
  | nil => simp
  | cons name names =>
    rw [if_neg (by simp), filesNamed, mapM_eq_ok_iff, and_iff_right (List.cons_ne_nil _ _)]
    constructor
    · refine fun h => h.imp fun name i hn => ?_
      split at hn
      · next hid => exact Except.ok.inj hn ▸ hid
      · cases hn
    · refine fun h => h.imp fun name i hn => ?_
      rw [hn]

/-- Different names are those of different files. -/
theorem filesToGenerate_nodup {names : List String} (h : filesToGenerate g names = .ok generate)
    (hd : names.Nodup) : generate.Nodup ∧ ∀ i ∈ generate, i < g.files.length := by
  obtain ⟨-, hnamed⟩ := filesToGenerate_eq_ok_iff.mp h
  have hnames : names = generate.map fun i => (g.file i).name := by
    rw [← List.forall₂_eq_eq_eq, List.forall₂_map_right_iff]
    exact hnamed.imp fun name i hn => (Graph.name_of_fileNamed? hn).2.symm
  refine ⟨List.Nodup.of_map _ (hnames ▸ hd), fun i hi => ?_⟩
  obtain ⟨name, -, hn⟩ := forall₂_exists_right hnamed hi
  exact (Graph.name_of_fileNamed? hn).1

/-- A request is compiled if all of its steps succeed, and all that is generated is verified. -/
theorem compile_eq_ok_iff : compile r = .ok as ↔ ∃ o, Options.read r.parameter = .ok o ∧
    ∃ g, Graph.build r.files = .ok g ∧ ∃ generate, filesToGenerate g r.generate = .ok generate ∧
    g.checkReferences g.index = .ok () ∧
    (∀ i ∈ generate, checkJavaPackages (Context.prepare o g generate) i = .ok ()) ∧
    ∃ beans, List.Forall₂ (fun i bs => Bean.beans (Context.prepare o g generate) i = .ok bs)
      generate beans ∧
    ∃ as?, List.Forall₂ (fun i a? => Converter.converter (Context.prepare o g generate) i = .ok a?)
      generate as? ∧
    (∀ a ∈ beans.flatten ++ as?.filterMap id, a.verify = .ok ()) ∧
      beans.flatten ++ as?.filterMap id = as := by
  simp only [compile, bind_eq_ok_iff, pure_eq_ok_iff, mapM_eq_ok_iff, ofSchema_eq_ok_iff,
    Unique.exists_iff, PUnit.default_eq_unit, forM_eq_ok_iff]

/-- A request for spelled files is compiled if its source files can be written at all, as they are
then verified as well. -/
theorem exists_compile (ho : Options.read r.parameter = .ok o) (hg : Graph.build r.files = .ok g)
    (hs : g.Spelled) (hf : filesToGenerate g r.generate = .ok generate)
    (hr : g.checkReferences g.index = .ok ())
    (hclasses : ∀ n ∈ (Naming.allocate o g generate).files, ∀ name ∈ n.classNames,
      Java.isIdentifier name.toList)
    (hpackages : ∀ i ∈ generate, checkJavaPackages (Context.prepare o g generate) i = .ok ())
    (hbeans : ∀ i ∈ generate, ∃ bs, Bean.beans (Context.prepare o g generate) i = .ok bs)
    (hconverters : ∀ i ∈ generate,
      ∃ a?, Converter.converter (Context.prepare o g generate) i = .ok a?) :
    ∃ as, compile r = .ok as := by
  obtain ⟨hbean, hconverter⟩ := Options.read_packages ho
  have hctx : (Context.prepare o g generate).Proper :=
    prepare_proper hg hs hbean hconverter hclasses
  have hlt : ∀ i ∈ generate, i < g.files.length := by
    obtain ⟨-, hnamed⟩ := filesToGenerate_eq_ok_iff.mp hf
    intro i hi
    obtain ⟨name, -, hn⟩ := forall₂_exists_right hnamed hi
    exact (Graph.name_of_fileNamed? hn).1
  have hnames : ∀ i ∈ generate, ((Context.prepare o g generate).names.file i).Proper :=
    fun i hi => hctx.names _ (allocate_file_mem (hlt i hi))
  obtain ⟨beans, hbs⟩ := exists_mapM_iff.mpr hbeans
  obtain ⟨as?, has⟩ := exists_mapM_iff.mpr hconverters
  have hbs := mapM_eq_ok_iff.mp hbs
  have has := mapM_eq_ok_iff.mp has
  refine ⟨_, compile_eq_ok_iff.mpr ⟨o, ho, g, hg, generate, hf, hr, hpackages, beans, hbs, as?, has,
    fun a ha => ?_, rfl⟩⟩
  rcases List.mem_append.mp ha with ha | ha
  · obtain ⟨bs, hmem, ha⟩ := List.mem_flatten.mp ha
    obtain ⟨i, hi, hb⟩ := forall₂_exists_right hbs hmem
    exact Bean.beans_verify hctx (hnames i hi) (hlt i hi) hb a ha
  · obtain ⟨a?, hmem, rfl⟩ := List.mem_filterMap.mp ha
    obtain ⟨i, hi, hc⟩ := forall₂_exists_right has hmem
    exact Converter.converter_verify hctx (hnames i hi) (hlt i hi) hc

/-- The beans of all files, in order. -/
theorem beans_declare (hl : ∀ i, (g.file i).Linked) (hi : ∀ i ∈ generate, i < g.files.length)
    {order : List Nat} (ho : ∀ i ∈ order, i ∈ generate) {beans : List (List Artifact)}
    (h : List.Forall₂ (fun i bs => Bean.beans (Context.prepare o g generate) i = .ok bs) order
      beans) :
    List.Forall₂ Artifact.Declares beans.flatten
      ((Naming.allocate o g generate).beanClasses g order) := by
  induction h with
  | nil => exact List.Forall₂.nil
  | @cons i bs order beans hb _ ih =>
    rw [List.forall_mem_cons] at ho
    have hfits : ((Naming.allocate o g generate).file i).Fits o.layout (g.file i) :=
      Naming.allocate_fits (hl i) (hi i ho.1)
    exact List.rel_append (Bean.beans_declares hb hfits.extensionsClass) (ih ho.2)

/-- The source files for a request have the paths of the classes that they declare. Those are
different unless a bean is the same class as a converter. -/
theorem compile_paths (ho : Options.read r.parameter = .ok o) (hg : Graph.build r.files = .ok g)
    (hf : filesToGenerate g r.generate = .ok generate) (hd : r.generate.Nodup)
    (h : compile r = .ok as) :
    let beans := (Naming.allocate o g generate).beanClasses g generate
    let converters :=
      (Naming.allocate o g generate).converterClasses g o.converterPackage generate
    as.map (·.path) = (beans ++ converters).map (fun c => sourcePath c.package c.simple) ∧
      ((as.map (·.path)).Nodup ↔ beans.Disjoint converters) := by
  have hl := Graph.build_linked hg
  obtain ⟨hd, hi⟩ := filesToGenerate_nodup hf hd
  obtain ⟨hbean, hconverter⟩ := Options.read_packages ho
  obtain ⟨o', ho', g', hg', generate', hf', -, -, bs, hbs, as?, has, hv, rfl⟩ :=
    compile_eq_ok_iff.mp h
  obtain rfl : o = o' := Except.ok.inj (ho.symm.trans ho')
  obtain rfl : g = g' := Except.ok.inj (hg.symm.trans hg')
  obtain rfl : generate = generate' := Except.ok.inj (hf.symm.trans hf')
  intro beans converters
  have hdeclares : List.Forall₂ Artifact.Declares (bs.flatten ++ as?.filterMap id)
      (beans ++ converters) :=
    List.rel_append (beans_declare hl hi (fun _ h => h) hbs) (Converter.converters_declare has)
  have htop : ∀ c ∈ beans ++ converters,
      c = .top c.package c.simple ∧ Naming.isPackageName c.package.toList := by
    intro c hc
    rcases List.mem_append.mp hc with hc | hc
    · obtain ⟨i, hm, hc⟩ := List.mem_flatMap.mp hc
      obtain ⟨n, -, rfl⟩ := List.mem_map.mp hc
      exact ⟨rfl, Naming.isPackageName_beanPackage hbean generate (hi i hm)⟩
    · obtain ⟨i, -, rfl⟩ := List.mem_map.mp hc
      exact ⟨rfl, hconverter⟩
  have hslash : ∀ c ∈ beans ++ converters, '/' ∉ c.simple.toList := by
    intro c hc
    obtain ⟨a, ha, hac⟩ := forall₂_exists_right hdeclares hc
    exact hac.slash_not_mem (htop c hc).2 (hv a ha)
  have hpaths : (bs.flatten ++ as?.filterMap id).map (·.path) =
      (beans ++ converters).map fun c => sourcePath c.package c.simple := by
    rw [← List.forall₂_eq_eq_eq, List.forall₂_map_left_iff, List.forall₂_map_right_iff]
    exact hdeclares.imp fun a c => Artifact.Declares.path
  have hinjective : ∀ c ∈ beans ++ converters, ∀ c' ∈ beans ++ converters,
      sourcePath c.package c.simple = sourcePath c'.package c'.simple → c = c' := by
    intro c hc c' hc' he
    obtain ⟨hp, hn⟩ := Java.sourcePath_injective (htop c hc).2 (htop c' hc').2 (hslash c hc)
      (hslash c' hc') he
    rw [(htop c hc).1, (htop c' hc').1, hp, hn]
  have hbeans : beans.Nodup := Naming.beanClasses_nodup hl hd hi
  have hconverters : converters.Nodup := Naming.converterClasses_nodup hd hi _
  refine ⟨hpaths, ?_⟩
  rw [hpaths]
  calc ((beans ++ converters).map fun c => sourcePath c.package c.simple).Nodup
    _ ↔ (beans ++ converters).Nodup := ⟨List.Nodup.of_map _, List.Nodup.map_on hinjective⟩
    _ ↔ beans.Disjoint converters := by
      rw [List.nodup_append', and_iff_right hbeans, and_iff_right hconverters]

/-- A request for a file whose beans are in the package of converters, with one message that is
called like the converter. -/
def overwriting : Descriptor.Request where
  files := [{
    name := "a.proto"
    package := "converter"
    messages := [{ name := "ConverterConverter" }] }]
  generate := ["a.proto"]
  parameter := "vopkg=p"

theorem compile_overwriting : ∃ as, compile overwriting = .ok as ∧
    as.map (·.path) = ["p/converter/ConverterConverter.java",
      "p/converter/ConverterConverter.java"] := by
  let o : Options := ⟨"p", "p.converter", .type, false⟩
  let g := (Graph.build overwriting.files).toOption.getD default
  have hg : Graph.build overwriting.files = .ok g := rfl
  let ctx := Context.prepare o g [0]
  have hroots : ((ctx.graph.file 0).topMessages.filter fun i =>
      !((ctx.graph.file 0).message i).mapEntry) = [0] := by
    decide +kernel
  have hbeans : (Bean.beans ctx 0).toOption.any fun as =>
      as.map (·.path) == ["p/converter/ConverterConverter.java"] := by
    rw [Bean.beans, Bean.Contents.of, hroots, List.mapM_cons, Bean.Outline.of]
    decide +kernel
  have hconverter : (Converter.converter ctx 0).toOption.any fun a? =>
      a?.map (·.path) == some "p/converter/ConverterConverter.java" := by
    decide +kernel
  obtain ⟨bs, hbs, hpaths⟩ := exists_eq_ok_of_any hbeans
  obtain ⟨a?, ha, hpath⟩ := exists_eq_ok_of_any hconverter
  obtain ⟨a, rfl, hname⟩ := Option.map_eq_some_iff.mp (beq_iff_eq.mp hpath)
  have hctx : ctx.Proper :=
    prepare_proper hg (by decide +kernel) (by decide) (by decide) (by decide +kernel)
  have hfile : 0 < ctx.graph.files.length := by decide
  have hnames : (ctx.names.file 0).Proper := hctx.names _ (allocate_file_mem hfile)
  have hverify : ∀ b ∈ bs ++ [a], b.verify = .ok () := by
    intro b hb
    rcases List.mem_append.mp hb with hb | hb
    · exact Bean.beans_verify hctx hnames hfile hbs b hb
    · exact List.mem_singleton.mp hb ▸ Converter.converter_verify hctx hnames hfile ha
  refine ⟨bs ++ [a], compile_eq_ok_iff.mpr ⟨o, rfl, g, hg, [0], rfl, rfl, ?_, [bs],
    .cons hbs .nil, [some a], .cons ha .nil, ?_, ?_⟩, ?_⟩
  · decide +kernel
  · simpa using hverify
  · simp
  · rw [List.map_append, beq_iff_eq.mp hpaths, List.map_singleton, hname]
    rfl

theorem compile_paths_overwriting :
    ∃ o g as, Options.read overwriting.parameter = .ok o ∧
      Graph.build overwriting.files = .ok g ∧
      filesToGenerate g overwriting.generate = .ok [0] ∧ compile overwriting = .ok as ∧
      let beans := (Naming.allocate o g [0]).beanClasses g [0]
      let converters := (Naming.allocate o g [0]).converterClasses g o.converterPackage [0]
      as.map (·.path) = (beans ++ converters).map (fun c => sourcePath c.package c.simple) ∧
        ((as.map (·.path)).Nodup ↔ beans.Disjoint converters) := by
  obtain ⟨as, has, -⟩ := compile_overwriting
  let g := (Graph.build overwriting.files).toOption.getD default
  have ho : Options.read overwriting.parameter = .ok ⟨"p", "p.converter", .type, false⟩ := rfl
  have hg : Graph.build overwriting.files = .ok g := rfl
  have hf : filesToGenerate g overwriting.generate = .ok [0] := rfl
  clear_value g
  exact ⟨_, g, as, ho, hg, hf, has, compile_paths ho hg hf (by decide) has⟩

/-- A converter can overwrite a bean. -/
theorem compile_overwrites :
    overwriting.generate.Nodup ∧ ((Graph.build overwriting.files).toOption.any (·.Spelled)) ∧
      ∃ as, compile overwriting = .ok as ∧ ¬ (as.map (·.path)).Nodup := by
  obtain ⟨as, has, hpaths⟩ := compile_overwriting
  refine ⟨by decide, by decide +kernel, as, has, ?_⟩
  rw [hpaths]
  decide

end Compiled

end ProtoJava
