import ProtoJava.Proofs.Bean.Renumbering
import ProtoJava.Proofs.Bean.Sources
import ProtoJava.Proofs.Converter.Renumbering
import ProtoJava.Proofs.Java.CodeLines

/-! # Comments

What is generated from schema files with other comments has the same code: all that a comment of a
schema can do is to put comments and blank lines between the lines of a bean.
-/

namespace ProtoJava

/-- A file as it would be handed over without comments. -/
def Descriptor.File.uncommented (f : Descriptor.File) : Descriptor.File :=
  { f with locations := [] }

/-- Two computations that fail with the same error, or have related results. -/
inductive SameOutcome {ε α β : Type} (R : α → β → Prop) : Except ε α → Except ε β → Prop
  | error (e : ε) : SameOutcome R (.error e) (.error e)
  | ok {a : α} {b : β} : R a b → SameOutcome R (.ok a) (.ok b)

namespace Schema

def File.uncommented (f : File) : File :=
  { f with comments := [] }

/-- The graph of the same files without comments. -/
def Graph.uncommented (g : Graph) : Graph :=
  ⟨g.files.map File.uncommented⟩

section Building

theorem File.ofDescriptor_uncommented (id : Nat) (raw : Descriptor.File) :
    File.ofDescriptor id raw.uncommented = (File.ofDescriptor id raw).map File.uncommented := by
  refine bind_eq_map (congrFun Except.map_id _).symm fun nested _ => ?_
  exact bind_eq_map (congrFun Except.map_id _).symm fun messages _ => rfl

theorem Graph.fileNamed?_uncommented (g : Graph) (name : String) :
    g.uncommented.fileNamed? name = g.fileNamed? name := by
  rw [Graph.fileNamed?, Graph.uncommented, List.findIdx?_map]
  rfl

theorem Graph.file_uncommented (g : Graph) (i : Nat) :
    g.uncommented.file i = (g.file i).uncommented := by
  rw [Graph.file, Graph.file, Graph.uncommented, List.getD_eq_getElem?_getD, List.getElem?_map,
    List.getD_eq_getElem?_getD]
  cases g.files[i]? <;> rfl

theorem reexported_uncommented (g : Graph) (raw : Descriptor.File) (i : Int) :
    reexported g.uncommented raw.uncommented i = reexported g raw i := by
  have hdependency : publicDependency? raw.uncommented i = publicDependency? raw i := rfl
  unfold reexported
  rw [hdependency]
  cases publicDependency? raw i with
  | none => rfl
  | some dependency =>
    dsimp only
    rw [Graph.fileNamed?_uncommented]
    cases g.fileNamed? dependency with
    | none => rfl
    | some id =>
      dsimp only
      rw [Graph.file_uncommented]
      rfl

theorem File.withReexports_uncommented (g : Graph) (raw : Descriptor.File) (f : File) :
    f.uncommented.withReexports g.uncommented raw.uncommented =
      (f.withReexports g raw).map File.uncommented := by
  have himports : raw.publicDependencies.mapM (reexported g.uncommented raw.uncommented) =
      (raw.publicDependencies.mapM (reexported g raw)).map fun lists => lists := by
    rw [funext (reexported_uncommented g raw)]
    exact (congrFun Except.map_id _).symm
  exact bind_eq_map himports fun _ _ => rfl

/-- Without comments the same graph is built, but for its comments. -/
theorem Graph.build_uncommented (raws : List Descriptor.File) :
    Graph.build (raws.map (·.uncommented)) = (Graph.build raws).map Graph.uncommented := by
  unfold Graph.build
  rw [List.zipIdx_map, List.mapM_map]
  refine bind_eq_map (mapM_eq_map fun p _ => File.ofDescriptor_uncommented p.2 p.1)
    fun files _ => ?_
  rw [List.zip_map, List.mapM_map]
  refine bind_eq_map (mapM_eq_map fun p _ => ?_) fun files _ => rfl
  exact File.withReexports_uncommented ⟨files⟩ p.1 p.2

theorem Graph.index_uncommented (g : Graph) : g.uncommented.index = g.index := by
  rw [Graph.index, Graph.uncommented, List.flatMap_map]
  rfl

variable {g g' : Graph}

theorem Graph.renumbers_of_uncommented (h : g.uncommented = g'.uncommented) :
    g.Renumbers id g' := by
  refine ⟨fun _ _ h => h, fun i => ?_⟩
  have hfile : g.uncommented.file i = g'.uncommented.file i := by rw [h]
  rw [Graph.file_uncommented, Graph.file_uncommented] at hfile
  have hcore : (g.file i).uncommented.core = (g'.file i).uncommented.core :=
    congrArg File.core hfile
  exact hcore.symm

theorem TypeRef.renumber_id (ref : TypeRef) : ref.renumber id = ref := by
  cases ref <;> rfl

theorem Index.agree_id (ix : Index) (f : Field) : Index.Agree id ix ix f := by
  have hsame : ∀ name, ix.resolve name = (ix.resolve name).map (TypeRef.renumber id) := by
    intro name
    cases ix.resolve name with
    | error e => rfl
    | ok ref => exact congrArg Except.ok ref.renumber_id.symm
  exact ⟨fun _ => hsame _, fun name _ => hsame name⟩

end Building

end Schema

open Java
open Mapping (Context AnyImports Yields)
open Schema (Graph)

/-- Graphs that differ in comments only are the same for all that is generated. -/
theorem Context.renumbers_of_uncommented {g g' : Graph} (h : g.uncommented = g'.uncommented)
    (o : Options) (generate : List Nat) :
    (Context.prepare o g generate).Renumbers id (Context.prepare o g' generate) where
  graph := Graph.renumbers_of_uncommented h
  agree _ f _ := by
    have hindex : g'.index = g.index := by
      rw [← g.index_uncommented, h, g'.index_uncommented]
    have hagree : Schema.Index.Agree id g.index g'.index f := by
      rw [hindex]
      exact Schema.Index.agree_id g.index f
    exact hagree
  names := by
    have hlength : g'.files.length = g.files.length := by
      simpa [Graph.uncommented] using congrArg (·.files.length) h.symm
    have horder : Naming.planningOrder g' (generate.map id) =
        (Naming.planningOrder g generate).map id ++ [] := by
      simp [Naming.planningOrder, hlength]
    have hnames := Naming.allocate_renumber (Graph.renumbers_of_uncommented h) o
      (fun i => by rw [hlength]; rfl) horder fun i _ => List.not_mem_nil
    rwa [List.map_id] at hnames
  options := rfl

namespace Java

theorem SameText.congruence : Congruence SameText where
  refl _ := ⟨fun _ => rfl, rfl, fun h => h⟩
  append h h' := by
    refine ⟨fun depth => ?_, ?_, fun hs => ?_⟩
    · rw [textOf_append, textOf_append, h.text, h'.text]
    · rw [labelsOf_append, labelsOf_append, h.labels, h'.labels]
    · rw [soundAll_append] at hs ⊢
      exact ⟨h.sound hs.1, h'.sound hs.2⟩
  block h := by
    refine ⟨fun depth => ?_, ?_, fun hs => ⟨h.sound hs.1, trivial⟩⟩
    · simp only [textOf, Step.text, h.text]
    · simp only [labelsOf, Step.labels, h.labels]
  body h := by
    refine ⟨fun depth => ?_, ?_, fun hs => ⟨h.sound hs.1, trivial⟩⟩
    · simp only [textOf, Step.text, h.text]
    · simp only [labelsOf, Step.labels, h.labels]

end Java

namespace Bean

theorem Draft.Alike.sameCode {d d' : Draft} (h : d.Alike SameText d')
    (hs : Yields AnyImports d.steps SoundAll) {ρ : Nat → Nat} {c : Contents} {f' : Schema.File}
    (hf : f'.core = c.file.core) : (sourceFile c d.className d.nested d.steps).SameCode
      (sourceFile (c.renumber ρ f') d'.className d'.nested d'.steps) := by
  let imports : Imports := { package := c.package, own := [d.className], nested := d.nested }
  obtain ⟨hsteps, himports⟩ := h.steps imports
  have hsound := (hs imports trivial).1
  rw [sourceFile_renumber hf, h.className, h.nested, sourceFile_eq, sourceFile_eq, ← himports]
  exact Artifact.assemble_sameCode _ _ (whole_unlines _) hsteps hsound

/-- The beans of a file with other comments have the same code. -/
theorem beans_recommented {ρ : Nat → Nat} {ctx ctx' : Context} (h : ctx.Renumbers ρ ctx')
    {file : Nat} : SameOutcome (List.Forall₂ Artifact.SameCode) (beans ctx file)
      (beans ctx' (ρ file)) := by
  rw [beans_eq_drafts, beans_eq_drafts, h.names, Contents.of_renumber h]
  cases hc : Contents.of ctx file with
  | error e => exact .error e
  | ok c =>
    obtain ⟨-, -, -, hfile, -, -⟩ := Contents.of_ok hc
    have hcore : (ctx'.graph.file (ρ file)).core = c.file.core := by rw [h.graph.core, hfile]
    have hf : Recommented SameText c.file (ctx'.graph.file (ρ file)) :=
      ⟨hcore, fun _ => sameText_comments _ _, fun _ => sameText_comments _ _⟩
    let wrapper := (ctx.names.file file).wrapperClass
    have hdrafts := Contents.drafts_renumber SameText.congruence hf h wrapper
    have hsources := (List.forall₂_and_left _ _).mpr ⟨c.drafts_sound ctx wrapper, hdrafts⟩
    refine .ok ?_
    dsimp only
    rw [List.forall₂_map_left_iff, List.forall₂_map_right_iff]
    exact hsources.imp fun d d' hd => hd.2.sameCode hd.1 hcore

end Bean

/-- Comments do not influence generated code. From files that differ in their comments only the
same graph is built, or none for the same reason. The beans of a file then have the same code and
annotations, and its converter is the very same. -/
theorem sameCode_of_uncommented {raws raws' : List Descriptor.File}
    (h : raws.map (·.uncommented) = raws'.map (·.uncommented)) (o : Options) (generate : List Nat)
    (file : Nat) : SameOutcome (fun g g' =>
      SameOutcome (List.Forall₂ Artifact.SameCode)
        (Bean.beans (Context.prepare o g generate) file)
        (Bean.beans (Context.prepare o g' generate) file) ∧
      Converter.converter (Context.prepare o g' generate) file =
        Converter.converter (Context.prepare o g generate) file)
      (Graph.build raws) (Graph.build raws') := by
  have hbuild : (Graph.build raws).map Graph.uncommented =
      (Graph.build raws').map Graph.uncommented := by
    rw [← Graph.build_uncommented, h, Graph.build_uncommented]
  cases hg : Graph.build raws with
  | error e =>
    cases hg' : Graph.build raws' with
    | error e' =>
      rw [hg, hg'] at hbuild
      obtain rfl := Except.error.inj hbuild
      exact .error e
    | ok g' =>
      rw [hg, hg'] at hbuild
      exact nomatch hbuild
  | ok g =>
    cases hg' : Graph.build raws' with
    | error e' =>
      rw [hg, hg'] at hbuild
      exact nomatch hbuild
    | ok g' =>
      rw [hg, hg'] at hbuild
      have hctx := Context.renumbers_of_uncommented (Except.ok.inj hbuild) o generate
      exact .ok ⟨Bean.beans_recommented hctx, Converter.converter_renumber hctx file⟩

/-- A file whose comments have the looks of code. -/
def ledger : Descriptor.File where
  name := "ledger.proto"
  package := "ledger"
  messages := [{
    name := "Entry"
    fields := [
      { name := "amount", number := 1, type := 3, label := 1 },
      { name := "kind", number := 2, type := 14, label := 1, typeName := ".ledger.Kind" }] }]
  enums := [{ name := "Kind", values := [{ name := "DEBIT" }, { name := "CREDIT", number := 1 }] }]
  locations := [
    { path := [4, 0], leading := some "An entry.\n\n\x7d class Other \x7b\r" },
    { path := [4, 0, 2, 0], leading := some "\\u000a int other;", trailing := some "\n\n" },
    { path := [5, 0, 2, 1], leading := some "*/", trailing := some "\x7b" }]

theorem sameCode_of_uncommented_ledger :
    ∃ g g' as as', Graph.build [ledger.uncommented] = .ok g ∧ Graph.build [ledger] = .ok g' ∧
      Bean.beans (Context.prepare ⟨"bean", "conv", .type, false⟩ g [0]) 0 = .ok as ∧
      Bean.beans (Context.prepare ⟨"bean", "conv", .type, false⟩ g' [0]) 0 = .ok as' ∧
      as.map (·.content) ≠ as'.map (·.content) ∧ List.Forall₂ Artifact.SameCode as as' := by
  let g := (Graph.build [ledger.uncommented]).toOption.getD default
  let g' := (Graph.build [ledger]).toOption.getD default
  have hg : Graph.build [ledger.uncommented] = .ok g := rfl
  have hg' : Graph.build [ledger] = .ok g' := rfl
  let ctx := Context.prepare ⟨"bean", "conv", .type, false⟩ g [0]
  let ctx' := Context.prepare ⟨"bean", "conv", .type, false⟩ g' [0]
  obtain ⟨as, has⟩ : ∃ as, Bean.beans ctx 0 = .ok as := exists_eq_ok (by decide +kernel)
  obtain ⟨as', has'⟩ : ∃ as, Bean.beans ctx' 0 = .ok as := exists_eq_ok (by decide +kernel)
  have hne : (Bean.beans ctx 0).toOption.map (·.map (·.content)) ≠
      (Bean.beans ctx' 0).toOption.map (·.map (·.content)) := by
    decide +kernel
  rw [has, has'] at hne
  have hraws : [ledger.uncommented].map (·.uncommented) = [ledger].map (·.uncommented) := rfl
  have hsame := sameCode_of_uncommented hraws ⟨"bean", "conv", .type, false⟩ [0] 0
  rw [hg, hg'] at hsame
  obtain ⟨hbeans, -⟩ : SameOutcome (List.Forall₂ Artifact.SameCode) (Bean.beans ctx 0)
      (Bean.beans ctx' 0) ∧ _ := by
    cases hsame with
    | ok h => exact h
  rw [has, has'] at hbeans
  refine ⟨g, g', as, as', hg, hg', has, has', fun he => hne (congrArg some he), ?_⟩
  cases hbeans with
  | ok h => exact h

end ProtoJava
