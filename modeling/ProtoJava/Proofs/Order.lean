import ProtoJava.Proofs.Bean.Renumbering
import ProtoJava.Proofs.Converter.Renumbering
import ProtoJava.Proofs.Paths

/-! # The order of files

What a request is answered with does not depend on where its files stand. The files that nothing is
generated for count in order among themselves only, as they ask for names after all others.
-/

namespace ProtoJava

open Descriptor (Request)
open Java (Artifact)
open Mapping (Context ofSchema_map)
open Schema (Graph Index)

section Checks

variable {ρ : Nat → Nat} {ctx ctx' : Context} (h : ctx.Renumbers ρ ctx')

include h

theorem namedFile?_renumber (id : Nat) {field : Schema.Field}
    (hf : Index.Agree ρ ctx.index ctx'.index field) :
    namedFile? ctx' (ctx'.graph.file (ρ id)) field =
      (namedFile? ctx (ctx.graph.file id) field).map (Option.map ρ) := by
  have hdialect : (ctx'.graph.file (ρ id)).dialect = (ctx.graph.file id).dialect :=
    h.graph.of_core (·.dialect) (fun _ => rfl) id
  unfold namedFile?
  rw [hdialect]
  cases hn : field.type.isNamed with
  | false => rfl
  | true =>
    rw [hf.typeName hn, ofSchema_map]
    cases ofSchema (ctx.index.resolve field.typeName) with
    | error e => rfl
    | ok ref =>
      cases ref with
      | message id' => rfl
      | enum id' =>
        simp only [Bool.not_true, Bool.false_eq_true, if_false, Except.map,
          Schema.TypeRef.renumber]
        split <;> rfl

theorem namedFiles_renumber (id : Nat) :
    namedFiles ctx' (ρ id) = (namedFiles ctx id).map (List.map ρ) := by
  have hmessages : (ctx'.graph.file (ρ id)).messages = (ctx.graph.file id).messages :=
    h.graph.of_core (·.messages) (fun _ => rfl) id
  unfold namedFiles
  dsimp only
  rw [hmessages]
  split
  · rfl
  · have hfield : ∀ x ∈ (ctx.graph.file id).messages.flatMap (·.fields),
        namedFile? ctx' (ctx'.graph.file (ρ id)) x =
          (namedFile? ctx (ctx.graph.file id) x).map (Option.map ρ) := by
      intro x hx
      obtain ⟨m, hm, hx⟩ := List.mem_flatMap.mp hx
      have hid : id < ctx.graph.files.length := by
        by_contra hn
        simp [Graph.file, Nat.le_of_not_lt hn] at hm
      exact namedFile?_renumber h id
        (h.agree _ _ (.field (Graph.file_of_lt hid) hm hx))
    refine bind_eq_map (mapM_eq_map hfield) fun named _ => congrArg Except.ok ?_
    rw [List.map_cons, List.map_filterMap, List.filterMap_map]
    rfl

theorem checkJavaPackages_renumber (id : Nat) :
    checkJavaPackages ctx' (ρ id) = checkJavaPackages ctx id := by
  have hpackage : ∀ n, (ctx'.names.file (ρ n)).protoPackage = (ctx.names.file n).protoPackage :=
    fun n => by rw [h.names]
  have hname : ∀ n, (ctx'.graph.file (ρ n)).name = (ctx.graph.file n).name :=
    h.graph.of_core (·.name) fun _ => rfl
  unfold checkJavaPackages
  rw [namedFiles_renumber h]
  cases namedFiles ctx id with
  | error e => rfl
  | ok named =>
    have hfind : (named.map ρ).find? (fun n => (ctx'.names.file n).protoPackage.isEmpty) =
        (named.find? fun n => (ctx.names.file n).protoPackage.isEmpty).map ρ := by
      rw [List.find?_map]
      simp only [Function.comp_def, hpackage]
    dsimp only [bind, Except.bind, Except.map]
    rw [hfind]
    cases named.find? fun n => (ctx.names.file n).protoPackage.isEmpty with
    | none => rfl
    | some n =>
      dsimp only [Option.map_some]
      rw [hname]

end Checks

section Planning

variable {g g' : Graph} {names : List String} {generate : List Nat}

theorem mem_generate_iff (hd : (g.files.map (·.name)).Nodup)
    (hf : filesToGenerate g names = .ok generate) {i : Nat} (hi : i < g.files.length) :
    i ∈ generate ↔ (g.file i).name ∈ names := by
  obtain ⟨-, hf⟩ := filesToGenerate_eq_ok_iff.mp hf
  constructor
  · intro hm
    obtain ⟨name, hname, hfound⟩ := forall₂_exists_right hf hm
    rwa [(Graph.name_of_fileNamed? hfound).2]
  · intro hm
    obtain ⟨j, hj, hfound⟩ := forall₂_exists hf hm
    rw [Graph.fileNamed?_file hd hi] at hfound
    exact Option.some.inj hfound ▸ hj

/-- The files that nothing is generated for, in order. -/
def others (g : Graph) (generate : List Nat) : List Nat :=
  (List.range g.files.length).filter (!generate.contains ·)

theorem mem_others_iff {i : Nat} : i ∈ others g generate ↔ i < g.files.length ∧ i ∉ generate := by
  simp [others]

theorem others_names (hd : (g.files.map (·.name)).Nodup)
    (hf : filesToGenerate g names = .ok generate) :
    (others g generate).map (fun i => (g.file i).name) =
      (g.files.map (·.name)).filter (· ∉ names) := by
  have hnames : g.files.map (·.name) =
      (List.range g.files.length).map fun i => (g.file i).name := by
    apply List.ext_getElem
    · simp
    · intro i hi hi'
      have hi : i < g.files.length := by simpa using hi
      simp [Graph.file, hi]
  rw [hnames, List.filter_map, others]
  refine congrArg _ (List.filter_congr fun i hi => ?_)
  have hmem := mem_generate_iff hd hf (List.mem_range.mp hi)
  simp [hmem]

/-- A file is the one of its name, so what has the same names is the same. -/
theorem eq_of_names_eq (hd : (g.files.map (·.name)).Nodup) {l l' : List Nat}
    (hl : ∀ i ∈ l, i < g.files.length) (hl' : ∀ i ∈ l', i < g.files.length)
    (h : l.map (fun i => (g.file i).name) = l'.map fun i => (g.file i).name) : l = l' := by
  have hself : ∀ {l : List Nat}, (∀ i ∈ l, i < g.files.length) →
      (l.map fun i => (g.file i).name).map (fun name => (g.fileNamed? name).getD 0) = l := by
    intro l hl
    rw [List.map_map]
    refine (List.map_congr_left fun i hi => ?_).trans (List.map_id _)
    simp [Graph.fileNamed?_file hd (hl i hi)]
  rw [← hself hl, h, hself hl']

theorem filesToGenerate_within (h : g.Within g') (hf : filesToGenerate g names = .ok generate) :
    filesToGenerate g' names = .ok (generate.map (g.place g')) := by
  obtain ⟨hne, hfound⟩ := filesToGenerate_eq_ok_iff.mp hf
  refine filesToGenerate_eq_ok_iff.mpr ⟨hne, ?_⟩
  rw [List.forall₂_map_right_iff]
  exact hfound.imp fun name i hi => h.fileNamed? hi

theorem others_within (h : g.Within g') (hf : filesToGenerate g names = .ok generate)
    (hothers : (g.files.map (·.name)).filter (· ∉ names) <+:
      (g'.files.map (·.name)).filter (· ∉ names)) :
    ∃ rest, others g' (generate.map (g.place g')) =
      (others g generate).map (g.place g') ++ rest := by
  obtain ⟨more, hmore⟩ := hothers
  rw [← others_names h.names hf, ← others_names h.names' (filesToGenerate_within h hf)] at hmore
  obtain ⟨first, rest, hsplit, hfirst, -⟩ := List.map_eq_append_iff.mp hmore.symm
  have hlt : ∀ i ∈ first, i < g'.files.length := fun i hi =>
    (mem_others_iff.mp (hsplit ▸ List.mem_append_left rest hi)).1
  have hlt' : ∀ i ∈ (others g generate).map (g.place g'), i < g'.files.length := by
    intro i hi
    obtain ⟨j, hj, rfl⟩ := List.mem_map.mp hi
    exact h.place_lt_iff.mpr (mem_others_iff.mp hj).1
  have hplaced : ((others g generate).map (g.place g')).map (fun i => (g'.file i).name) =
      (others g generate).map fun i => (g.file i).name := by
    rw [List.map_map]
    exact List.map_congr_left fun i _ => h.name_place i
  have heq := eq_of_names_eq h.names' hlt hlt' (hfirst.trans hplaced.symm)
  exact ⟨rest, heq ▸ hsplit⟩

/-- With more files in a request, those that are planned keep their order, before any that are
added. -/
theorem planningOrder_within (h : g.Within g') (hf : filesToGenerate g names = .ok generate)
    (hothers : (g.files.map (·.name)).filter (· ∉ names) <+:
      (g'.files.map (·.name)).filter (· ∉ names)) :
    ∃ rest, Naming.planningOrder g' (generate.map (g.place g')) =
        (Naming.planningOrder g generate).map (g.place g') ++ rest ∧
      ∀ i < g.files.length, g.place g' i ∉ rest := by
  let generate' := generate.map (g.place g')
  obtain ⟨rest, hsplit⟩ := others_within h hf hothers
  refine ⟨rest, ?_, fun i hi hm => ?_⟩
  · change generate' ++ others g' generate' = (generate ++ others g generate).map _ ++ rest
    rw [hsplit, List.map_append, List.append_assoc]
  · have hm' : g.place g' i ∈ others g' generate' := hsplit ▸ List.mem_append_right _ hm
    have hnot : i ∉ generate :=
      fun hg => (mem_others_iff.mp hm').2 (List.mem_map_of_mem hg)
    have hnodup : (others g' generate').Nodup := List.nodup_range.filter _
    rw [hsplit, List.nodup_append'] at hnodup
    exact hnodup.2.2 (List.mem_map_of_mem (mem_others_iff.mpr ⟨hi, hnot⟩)) hm

end Planning

section Compiled

variable {r : Request} {as : List Artifact}

theorem Schema.Graph.Within.context {g g' : Graph} (h : g.Within g')
    (hr : g.checkReferences g.index = .ok ()) (o : Options) {generate rest : List Nat}
    (horder : Naming.planningOrder g' (generate.map (g.place g')) =
      (Naming.planningOrder g generate).map (g.place g') ++ rest)
    (hrest : ∀ i < g.files.length, g.place g' i ∉ rest) :
    (Context.prepare o g generate).Renumbers (g.place g')
      (Context.prepare o g' (generate.map (g.place g'))) where
  graph := h.renumbers
  agree m f hf := by
    obtain ⟨raws, hg⟩ := h.built
    exact h.agree ((Graph.checkReferences_iff hg).mp hr m f hf)
  names := Naming.allocate_renumber h.renumbers o (fun _ => h.place_lt_iff) horder hrest
  options := rfl

/-- Whatever a request is answered with, one with the same files at other places, or with more
files after those that nothing is generated for, is answered with as well. -/
theorem compile_within {files : List Descriptor.File} {g g' : Graph} (hc : compile r = .ok as)
    (hg : Graph.build r.files = .ok g) (hg' : Graph.build files = .ok g') (h : g.Within g')
    (hothers : (r.files.map (·.name)).filter (· ∉ r.generate) <+:
      (files.map (·.name)).filter (· ∉ r.generate))
    (hr' : g'.checkReferences g'.index = .ok ()) :
    compile { r with files := files } = .ok as := by
  obtain ⟨o, ho, g₀, hg₀, generate, hf, hr, hpackages, beans, hbeans, as?, has, hverify, rfl⟩ :=
    compile_eq_ok_iff.mp hc
  obtain rfl : g = g₀ := Except.ok.inj (hg.symm.trans hg₀)
  rw [← Graph.build_names hg, ← Graph.build_names hg'] at hothers
  have hf' := filesToGenerate_within h hf
  obtain ⟨rest, horder, hrest⟩ := planningOrder_within h hf hothers
  have hctx := h.context hr o horder hrest
  refine compile_eq_ok_iff.mpr ⟨o, ho, g', hg', _, hf', hr', ?_, beans, ?_, as?, ?_, hverify, rfl⟩
  · intro i hi
    obtain ⟨j, hj, rfl⟩ := List.mem_map.mp hi
    exact (checkJavaPackages_renumber hctx j).trans (hpackages j hj)
  · rw [List.forall₂_map_left_iff]
    refine hbeans.imp fun i bs hb => (Bean.beans_renumber hctx ?_).trans hb
    exact Schema.File.of_own (·.comments) (fun _ => rfl) (h.own_place i)
  · rw [List.forall₂_map_left_iff]
    exact has.imp fun i a? ha => (Converter.converter_renumber hctx i).trans ha

theorem compile_perm (hnames : (r.files.map (·.name)).Nodup)
    (htypes : (r.files.flatMap Descriptor.File.typeNames).Nodup) {files : List Descriptor.File}
    (hp : files.Perm r.files)
    (hothers : files.filter (·.name ∉ r.generate) = r.files.filter (·.name ∉ r.generate))
    (hc : compile r = .ok as) : compile { r with files := files } = .ok as := by
  obtain ⟨-, -, g, hg, -, -, hr, -⟩ := compile_eq_ok_iff.mp hc
  obtain ⟨g', hg'⟩ : ∃ g', Graph.build files = .ok g' := by
    refine Schema.exists_build_iff.mpr fun raw hraw i hi => ?_
    have hknown := Schema.exists_build_iff.mp ⟨g, hg⟩ raw (hp.subset hraw) i hi
    exact hknown.mono (hp.symm.map (·.name)).subset
  have h : g.Within g' := Graph.within_of_subset hg hg' hp.symm.subset hnames
    ((hp.map _).nodup_iff.mpr hnames) ((hp.flatMap_right _).nodup_iff.mpr htypes)
  refine compile_within hc hg hg' h ?_ (h.checkReferences hr fun f' hf' => ?_)
  · rw [List.filter_map, List.filter_map]
    exact (congrArg (List.map (·.name)) hothers) ▸ List.prefix_refl _
  · obtain ⟨f, hf, hown⟩ := Graph.exists_own hg' hg hp.subset hf'
    exact Or.inl ⟨f, hf, hown.symm⟩

theorem compile_append (hnames : (r.files.map (·.name)).Nodup) {raw : Descriptor.File}
    (hname : raw.name ∉ r.files.map (·.name))
    (htypes : ((r.files ++ [raw]).flatMap Descriptor.File.typeNames).Nodup)
    (himports : ∀ i ∈ raw.publicDependencies,
      Schema.Known ((r.files ++ [raw]).map (·.name)) raw i)
    (hrefers : ∀ g, Graph.build (r.files ++ [raw]) = .ok g →
      ∀ f ∈ (g.file r.files.length).declaredFields, g.Refers f)
    (hc : compile r = .ok as) : compile { r with files := r.files ++ [raw] } = .ok as := by
  obtain ⟨-, -, g, hg, -, -, hr, -⟩ := compile_eq_ok_iff.mp hc
  have hsub : r.files ⊆ r.files ++ [raw] := List.subset_append_left _ _
  obtain ⟨g', hg'⟩ : ∃ g', Graph.build (r.files ++ [raw]) = .ok g' := by
    refine Schema.exists_build_iff.mpr fun raw' hraw i hi => ?_
    rcases List.mem_append.mp hraw with hraw | hraw
    · have hknown := Schema.exists_build_iff.mp ⟨g, hg⟩ raw' hraw i hi
      exact hknown.mono (List.map_subset _ hsub)
    · obtain rfl := List.mem_singleton.mp hraw
      exact himports i hi
  have hnames' : ((r.files ++ [raw]).map (·.name)).Nodup := by
    rw [List.map_append, List.map_singleton]
    exact List.nodup_append'.mpr ⟨hnames, List.nodup_singleton _, by simpa using hname⟩
  have h : g.Within g' := Graph.within_of_subset hg hg' hsub hnames hnames' htypes
  refine compile_within hc hg hg' h ?_ (h.checkReferences hr fun f' hf' => ?_)
  · rw [List.map_append, List.filter_append]
    exact List.prefix_append _ _
  · obtain ⟨raw', hraw, hd⟩ := forall₂_exists_right (Graph.build_describes hg') hf'
    rcases List.mem_append.mp hraw with hraw | hraw
    · obtain ⟨f, hf, hd'⟩ := forall₂_exists (Graph.build_describes hg) hraw
      exact Or.inl ⟨f, hf, hd'.own_eq hd⟩
    · obtain rfl := List.mem_singleton.mp hraw
      have hlast : Schema.File.Describes raw' (g'.file r.files.length) := by
        have hlt : r.files.length < g'.files.length := by simp [Graph.build_length hg']
        have hget := (Graph.build_describes hg').get (i := r.files.length) (by simp) hlt
        rw [Graph.file_eq_getElem hlt]
        simpa using hget
      have hfields : f'.declaredFields = (g'.file r.files.length).declaredFields :=
        Schema.File.of_own (·.declaredFields) (fun _ => rfl) (hlast.own_eq hd)
      rw [hfields]
      exact Or.inr (hrefers g' hg')

/-- The answer to a request whose files and types have different names does not depend on the order
of the files, as long as those that nothing is generated for keep theirs; and a further such file at
the end, whose references are found, does not change the answer. -/
theorem compile_order (hnames : (r.files.map (·.name)).Nodup)
    (htypes : (r.files.flatMap Descriptor.File.typeNames).Nodup) :
    (∀ files : List Descriptor.File, files.Perm r.files →
      files.filter (·.name ∉ r.generate) = r.files.filter (·.name ∉ r.generate) →
      ∀ as, compile { r with files := files } = .ok as ↔ compile r = .ok as) ∧
    ∀ (raw : Descriptor.File) (as : List Artifact), compile r = .ok as →
      raw.name ∉ r.files.map (·.name) →
      ((r.files ++ [raw]).flatMap Descriptor.File.typeNames).Nodup →
      (∀ i ∈ raw.publicDependencies, Schema.Known ((r.files ++ [raw]).map (·.name)) raw i) →
      (∀ g, Graph.build (r.files ++ [raw]) = .ok g →
        ∀ f ∈ (g.file r.files.length).declaredFields, g.Refers f) →
      compile { r with files := r.files ++ [raw] } = .ok as := by
  constructor
  · intro files hp hothers as
    constructor
    · have hnames' : (files.map (·.name)).Nodup := (hp.map _).nodup_iff.mpr hnames
      have htypes' : (files.flatMap Descriptor.File.typeNames).Nodup :=
        (hp.flatMap_right _).nodup_iff.mpr htypes
      exact compile_perm (r := { r with files := files }) hnames' htypes' hp.symm hothers.symm
    · exact compile_perm hnames htypes hp hothers
  · intro raw as hc hname htypes' himports hrefers
    exact compile_append hnames hname htypes' himports hrefers hc

/-- A request for a file that uses a type of another one. -/
def trade : Request where
  files := [
    { name := "trade.proto"
      package := "trade"
      messages := [{
        name := "Deal"
        fields := [
          { name := "ware", number := 1, type := 11, label := 1, typeName := ".stock.Ware" },
          { name := "terms", number := 2, type := 9, label := 3 }] }] },
    { name := "stock.proto"
      package := "stock"
      javaPackage := some "org.stock"
      messages := [{ name := "Ware" }] },
    { name := "trade/more.proto", package := "trade" }]
  generate := ["trade.proto"]
  parameter := "vopkg=bean"

theorem compile_trade : ∃ as, compile trade = .ok as := by
  let o : Options := ⟨"bean", "bean.converter", .type, false⟩
  let g := (Graph.build trade.files).toOption.getD default
  have hg : Graph.build trade.files = .ok g := rfl
  let ctx := Context.prepare o g [0]
  have hbeans : ∃ bs, Bean.beans ctx 0 = .ok bs := exists_eq_ok (by decide +kernel)
  have hconverter : ∃ a?, Converter.converter ctx 0 = .ok a? := exists_eq_ok (by decide +kernel)
  exact exists_compile (o := o) rfl hg (by decide +kernel) rfl (by decide +kernel)
    (by decide +kernel) (by decide +kernel) (by simpa using hbeans) (by simpa using hconverter)

/-- A file that nothing is generated for, with references to the files of the request. -/
def tradeLog : Descriptor.File where
  name := "log.proto"
  package := "log"
  dependencies := ["trade.proto", "stock.proto"]
  publicDependencies := [1]
  messages := [{
    name := "Entry"
    fields := [
      { name := "deal", number := 1, type := 11, label := 1, typeName := ".trade.Deal" }] }]

theorem compile_order_trade :
    let files := trade.files[1] :: trade.files[0] :: trade.files.drop 2
    ∃ as, compile trade = .ok as ∧ compile { trade with files := files } = .ok as ∧
      compile { trade with files := trade.files ++ [tradeLog] } = .ok as := by
  obtain ⟨as, has⟩ := compile_trade
  let g := (Graph.build (trade.files ++ [tradeLog])).toOption.getD default
  have hg : Graph.build (trade.files ++ [tradeLog]) = .ok g := rfl
  have hcheck : ∀ f ∈ (g.file 3).declaredFields, g.index.checkField f = .ok () := by
    decide +kernel
  have himports : ∀ i ∈ tradeLog.publicDependencies,
      Schema.Known ((trade.files ++ [tradeLog]).map (·.name)) tradeLog i :=
    Schema.exists_build_iff.mp ⟨g, hg⟩ tradeLog (by simp)
  obtain ⟨hperm, happend⟩ := compile_order (r := trade) (by decide) (by decide +kernel)
  refine ⟨as, has, (hperm _ (.swap _ _ _) rfl as).mpr has, ?_⟩
  refine happend tradeLog as has (by decide) (by decide +kernel) himports fun g' hg' f hf => ?_
  obtain rfl : g = g' := Except.ok.inj (hg.symm.trans hg')
  exact (Graph.checkField_iff hg).mp (hcheck f hf)

end Compiled

end ProtoJava
