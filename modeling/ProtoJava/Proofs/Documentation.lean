import ProtoJava.Proofs.Bean.Documented
import ProtoJava.Proofs.Comments
import ProtoJava.Proofs.Schema.Placing

/-! # Documentation

What becomes of the comments of a schema file in its beans. Without the comments the beans have the
same lines, and each declaration that is shown has one place among these, with its leading comment
before it and its trailing comment after the line that opens it. Oneofs, their members and
extensions lose their trailing comments.
-/

namespace ProtoJava

open Schema (Path Comments)

/-- The comments that a file attaches to a path: those of the first location there that has any. -/
def Descriptor.File.commentsAt (raw : Descriptor.File) (p : Path) : Option Comments :=
  (raw.locations.find? fun l => l.path = p ∧ l.hasComments).map fun l => ⟨l.leading, l.trailing⟩

namespace Schema

variable {raw : Descriptor.File} {f : File}

theorem File.Describes.commentsAt? (h : File.Describes raw f) : f.commentsAt? = raw.commentsAt := by
  obtain ⟨id, f₀, h₀, hf⟩ := h
  have hcomments : f.comments = f₀.comments := by rw [hf]
  funext p
  rw [File.commentsAt?, hcomments, File.ofDescriptor_comments h₀]
  exact lookup_commentsOf raw.locations p

theorem File.Describes.paths_nodup (h : File.Describes raw f) : f.paths.Nodup := by
  obtain ⟨id, f₀, h₀, hf⟩ := h
  have hpaths : f.paths = f₀.paths := by
    rw [hf]
    rfl
  exact hpaths ▸ File.paths_nodup h₀

theorem Graph.uncommented_uncommented (g : Graph) : g.uncommented.uncommented = g.uncommented := by
  simp only [Graph.uncommented, List.map_map]
  rfl

end Schema

namespace Bean

open Java
open Mapping
open Schema (Graph)

theorem flatMap_nothing (l : List String) : l.flatMap (fun _ => ([] : List String)) = [] :=
  List.flatMap_eq_nil_iff.mpr fun _ _ => rfl

/-- Steps that have the same lines but for comments. -/
def SameLines (a b : List Step) : Prop :=
  bareOf (fun _ => []) a = bareOf (fun _ => []) b

theorem SameLines.congruence : Congruence SameLines where
  refl _ := rfl
  append h h' := by
    rw [SameLines, bareOf_append, bareOf_append, h, h']
  block h := by
    simp only [SameLines, bareOf_cons, Step.bare]
    rw [h]
  body h := by
    simp only [SameLines, bareOf_cons, Step.bare]
    rw [h]

theorem sameLines_leading (f f' : Schema.File) (path : Path) :
    SameLines (leading f path) (leading f' path) := by
  rw [SameLines, bareOf_leading, bareOf_leading, flatMap_nothing, flatMap_nothing]

theorem sameLines_trailing (f f' : Schema.File) (path : Path) :
    SameLines (trailing f path) (trailing f' path) := by
  rw [SameLines, bareOf_trailing, bareOf_trailing, flatMap_nothing, flatMap_nothing]

/-- A source file with the lines of passages, and the comments on them. -/
def Shows (comments : Schema.Path → Option Schema.Comments) (a : Artifact) (ps : List Passage) :
    Prop :=
  bareLines a.content.toList = ps.flatMap (Passage.lines remarkLines comments)

section Pages

variable {c : Contents} {f' : Schema.File} {d d' : Draft} {ds : List Documented}

/-- A passage whose declaration has no comments, and one whose comments are written as nothing. -/
theorem Passage.lines_silent (p : Passage) (remark : String → List String)
    (comments : Schema.Path → Option Schema.Comments) :
    p.lines (fun _ => []) comments = p.lines remark fun _ => none := by
  cases p with
  | plain lines => rfl
  | declaration d notes deprecated opening => simp [Passage.lines, flatMap_nothing]

/-- The lines of a source file, and those of the same one for a file without comments. -/
theorem exists_page {ds' : List Documented} (hf : f'.core = c.file.core)
    (hnone : ∀ p, f'.commentsAt? p = none) (halike : d.Alike SameLines d')
    (hs : Yields AnyImports d.steps SoundAll) (hs' : Yields AnyImports d'.steps SoundAll)
    (hd : Yields AnyImports d.steps fun steps => Documents c.file steps ds)
    (hd' : Yields AnyImports d'.steps fun steps => Documents f' steps ds') :
    ∃ page : List Passage,
      Shows c.file.commentsAt? (sourceFile c d.className d.nested d.steps) page ∧
      Shows (fun _ => none) (sourceFile (c.renumber id f') d'.className d'.nested d'.steps) page ∧
      (∀ p ∈ page, p.Sound) ∧ page.filterMap Passage.declaration? = ds := by
  let imports : Imports := { package := c.package, own := [d.className], nested := d.nested }
  obtain ⟨hsteps, himports⟩ := halike.steps imports
  obtain ⟨ps, hps, hsound, rfl⟩ := (hd imports trivial).1
  have hbare : bareOf remarkLines (d'.steps.run imports).1 =
      ps.flatMap (Passage.lines remarkLines fun _ => none) := by
    rw [(hd' imports trivial).1.bareOf_eq hnone remarkLines fun _ => [], ← hsteps, hps]
    exact List.flatMap_congr fun p _ => p.lines_silent remarkLines _
  let lines := bareLines (prologue c.package c.file (d.steps.run imports).2).toList
  refine ⟨.plain lines :: ps, ?_, ?_, ?_, rfl⟩
  · rw [Shows, Draft.bareLines_sourceFile c hs, List.flatMap_cons, ← hps]
    rfl
  · rw [Shows, sourceFile_renumber hf, Draft.bareLines_sourceFile c hs', List.flatMap_cons, ← hbare]
    simp only [lines, himports, Draft.lines, halike.className, halike.nested]
    rfl
  · rw [List.forall_mem_cons]
    exact ⟨trivial, hsound⟩

/-- The source files `as` are those of `as'` with comments, on the given declarations. -/
def Commented (comments : Schema.Path → Option Schema.Comments) (as as' : List Artifact)
    (ds : List Documented) : Prop :=
  ∃ pages : List (List Passage), List.Forall₂ (Shows comments) as pages ∧
    List.Forall₂ (Shows fun _ => none) as' pages ∧ (∀ p ∈ pages.flatten, p.Sound) ∧
      (pages.flatten.filterMap Passage.declaration?).Perm ds

/-- The source files of drafts are those of the same drafts for a file without comments, and the
comments. -/
theorem drafts_commented (hf : f'.core = c.file.core) (hnone : ∀ p, f'.commentsAt? p = none)
    {drafts drafts' : List Draft} {dss dss' : List (List Documented)}
    (halike : List.Forall₂ (Draft.Alike SameLines) drafts drafts')
    (hd : List.Forall₂ (fun d ds => Yields AnyImports d.steps SoundAll ∧
      Yields AnyImports d.steps fun steps => Documents c.file steps ds) drafts dss)
    (hd' : List.Forall₂ (fun d ds => Yields AnyImports d.steps SoundAll ∧
      Yields AnyImports d.steps fun steps => Documents f' steps ds) drafts' dss') :
    Commented c.file.commentsAt? (drafts.map fun d => sourceFile c d.className d.nested d.steps)
      (drafts'.map fun d => sourceFile (c.renumber id f') d.className d.nested d.steps)
      dss.flatten := by
  induction halike generalizing dss dss' with
  | nil =>
    cases hd
    exact ⟨[], .nil, .nil, by simp, .refl _⟩
  | cons h _ ih =>
    cases hd with
    | cons hhead hd =>
      cases hd' with
      | cons hhead' hd' =>
        obtain ⟨page, hpage, hpage', hsound, rfl⟩ :=
          exists_page hf hnone h hhead.1 hhead'.1 hhead.2 hhead'.2
        obtain ⟨pages, hpages, hpages', hsounds, hdss⟩ := ih hd hd'
        refine ⟨page :: pages, .cons hpage hpages, .cons hpage' hpages', ?_, ?_⟩
        · rw [List.flatten_cons, List.forall_mem_append]
          exact ⟨hsound, hsounds⟩
        · rw [List.flatten_cons, List.filterMap_append, List.flatten_cons]
          exact hdss.append_left _

end Pages

/-- The drafts of a file are sound, and for its declarations. -/
theorem Contents.drafts_sound_documents {ctx : Context} {file : Nat} {c : Contents}
    (h : Contents.of ctx file = .ok c) (wrapper : Option String) :
    ∃ dss, List.Forall₂ (fun d ds => Yields AnyImports d.steps SoundAll ∧
        Yields AnyImports d.steps fun steps => Documents c.file steps ds)
      (c.drafts ctx wrapper) dss ∧ dss.flatten = c.documented := by
  obtain ⟨dss, hdss, hflatten⟩ := Contents.drafts_documents h wrapper
  exact ⟨dss, (List.forall₂_and_left _ _).mpr ⟨c.drafts_sound ctx wrapper, hdss⟩, hflatten⟩

/-- The beans of a file are those of the same file without comments, and the comments. -/
theorem beans_commented {ctx ctx' : Context} (h : ctx.Renumbers id ctx') {file : Nat}
    {layout : Layout} (hl : (ctx.graph.file file).Linked)
    (hfits : (ctx.names.file file).Fits layout (ctx.graph.file file))
    (hnone : ∀ p, (ctx'.graph.file file).commentsAt? p = none) {as : List Artifact}
    (has : beans ctx file = .ok as) :
    ∃ as', beans ctx' file = .ok as' ∧ Commented (ctx.graph.file file).commentsAt? as as'
      (fileDocumented (ctx.graph.file file) (ctx.names.file file)) := by
  rw [beans_eq_drafts] at has
  cases hc : Contents.of ctx file with
  | error e =>
    rw [hc] at has
    exact nomatch has
  | ok c =>
    rw [hc] at has
    obtain rfl := Except.ok.inj has
    obtain ⟨-, -, -, hfile, -, -⟩ := Contents.of_ok hc
    have hc' : Contents.of ctx' file = .ok (c.renumber id (ctx'.graph.file file)) := by
      have hrenumber := Contents.of_renumber h file
      rw [hc] at hrenumber
      exact hrenumber
    have hcore : (ctx'.graph.file file).core = c.file.core := by
      rw [hfile]
      exact h.graph.core file
    let wrapper := (ctx.names.file file).wrapperClass
    have hwrapper : (ctx'.names.file file).wrapperClass = wrapper :=
      congrArg (·.wrapperClass) (h.names file)
    have hf : Recommented SameLines c.file (ctx'.graph.file file) :=
      ⟨hcore, fun _ => sameLines_leading _ _ _, fun _ => sameLines_trailing _ _ _⟩
    have halike := Contents.drafts_renumber SameLines.congruence hf h wrapper
    obtain ⟨dss, hdss, hdocumented⟩ := Contents.drafts_sound_documents hc wrapper
    obtain ⟨dss', hdss', -⟩ := Contents.drafts_sound_documents hc' wrapper
    obtain ⟨pages, hpages, hpages', hsound, hperm⟩ := drafts_commented hcore hnone halike hdss hdss'
    refine ⟨_, by rw [beans_eq_drafts, hc', hwrapper]; rfl, pages, ?_, hpages', hsound, ?_⟩
    · rwa [hfile] at hpages
    · rw [hdocumented] at hperm
      exact hperm.trans (Contents.documented_perm hl hfits hc)

/-- What becomes of the comments of a schema file. The beans of a file have the lines of those that
are generated without comments, with the comments among them: before and after the line that opens a
declaration, or before it only if it is of a oneof, of a member of one, or of an extension. If the
fields of messages extend nothing, then each declaration that is shown is opened exactly once. -/
theorem beans_documented {raws : List Descriptor.File} {g : Graph} (hg : Graph.build raws = .ok g)
    (o : Options) (generate : List Nat) {file : Nat} {raw : Descriptor.File}
    (hraw : raws[file]? = some raw) {as : List Artifact}
    (has : beans (Context.prepare o g generate) file = .ok as) :
    (∃ g' as', Graph.build (raws.map (·.uncommented)) = .ok g' ∧
      beans (Context.prepare o g' generate) file = .ok as' ∧
      Commented raw.commentsAt as as'
        (fileDocumented (g.file file) ((Naming.allocate o g generate).file file))) ∧
    (shownPaths (g.file file)).Nodup ∧
    ((∀ m ∈ (g.file file).messages, ∀ f ∈ m.fields, f.extendee = none) →
      ((fileDocumented (g.file file) ((Naming.allocate o g generate).file file)).map
        (·.path)).Perm (shownPaths (g.file file))) := by
  have hl := Graph.build_linked hg file
  have hdescribes := Graph.build_describes_file hg hraw
  have hfile : file < g.files.length := by
    rw [Graph.build_length hg]
    exact (List.getElem?_eq_some_iff.mp hraw).1
  have hfits : ((Naming.allocate o g generate).file file).Fits o.layout (g.file file) :=
    Naming.allocate_fits hl hfile
  refine ⟨?_, shownPaths_nodup hdescribes.paths_nodup, fun hx => fileDocumented_paths hl hx _⟩
  have hbuild : Graph.build (raws.map (·.uncommented)) = .ok g.uncommented := by
    rw [Graph.build_uncommented, hg]
    rfl
  have hctx := Context.renumbers_of_uncommented g.uncommented_uncommented.symm o generate
  have hnone : ∀ p, (g.uncommented.file file).commentsAt? p = none := by
    intro p
    rw [Graph.file_uncommented]
    rfl
  obtain ⟨as', has', hcommented⟩ := beans_commented hctx hl hfits hnone has
  have hcomments : (g.file file).commentsAt? = raw.commentsAt := hdescribes.commentsAt?
  refine ⟨g.uncommented, as', hbuild, has', ?_⟩
  rw [← hcomments]
  exact hcommented

/-- A file with comments on all kinds of declarations. -/
def almanac : Descriptor.File where
  name := "almanac.proto"
  package := "almanac"
  messages := [{
    name := "Day"
    fields := [
      { name := "number", number := 1, type := 5, label := 1 },
      { name := "note", number := 2, type := 9, label := 1, oneofIndex := some 0 }]
    oneofs := ["event"] }]
  enums := [{ name := "Phase", values := [{ name := "NEW" }] }]
  extensions := [
    { name := "tide", number := 100, type := 5, label := 1, extendee := some ".almanac.Day" }]
  locations := [
    { path := [4, 0], leading := some " A day.", trailing := some " Of a year." },
    { path := [4, 0, 2, 0], leading := some " From 1 on.", trailing := some " To 366." },
    { path := [4, 0, 8, 0], leading := some " What happens." },
    { path := [4, 0, 2, 1], leading := some " Some words.", trailing := some " At most ten." },
    { path := [5, 0], leading := some " Of the moon." },
    { path := [5, 0, 2, 0], trailing := some " Dark." },
    { path := [7, 0], leading := some " Of the sea." }]

theorem beans_documented_almanac :
    ∃ g g' as as' ds, Graph.build [almanac] = .ok g ∧ Graph.build [almanac.uncommented] = .ok g' ∧
      beans (Context.prepare ⟨"bean", "conv", .type, false⟩ g [0]) 0 = .ok as ∧
      beans (Context.prepare ⟨"bean", "conv", .type, false⟩ g' [0]) 0 = .ok as' ∧
      as.length = 3 ∧ Commented almanac.commentsAt as as' ds ∧
      (ds.map (·.path)).Perm [[4, 0], [4, 0, 2, 0], [4, 0, 2, 1], [4, 0, 8, 0], [5, 0],
        [5, 0, 2, 0], [7, 0]] := by
  let g := (Graph.build [almanac]).toOption.getD default
  have hg : Graph.build [almanac] = .ok g := rfl
  let ctx := Context.prepare ⟨"bean", "conv", .type, false⟩ g [0]
  have hbeans : (beans ctx 0).toOption.any (·.length == 3) := by decide +kernel
  obtain ⟨as, has, hlength⟩ := exists_eq_ok_of_any hbeans
  obtain ⟨⟨g', as', hg', has', hcommented⟩, -, hpaths⟩ :=
    beans_documented hg ⟨"bean", "conv", .type, false⟩ [0] rfl has
  have hshown : shownPaths (g.file 0) = [[4, 0], [4, 0, 2, 0], [4, 0, 2, 1], [4, 0, 8, 0], [5, 0],
      [5, 0, 2, 0], [7, 0]] := by
    decide +kernel
  rw [hshown] at hpaths
  exact ⟨g, g', as, as', _, hg, hg', has, has', beq_iff_eq.mp hlength, hcommented,
    hpaths (by decide +kernel)⟩

/-- A file with a comment after a member of a oneof. -/
def diary : Descriptor.File where
  name := "diary.proto"
  package := "diary"
  messages := [{
    name := "Day"
    fields := [{ name := "dry", number := 1, type := 8, label := 1, oneofIndex := some 0 }]
    oneofs := ["is"] }]
  locations := [{ path := [4, 0, 2, 0], trailing := some " No rain." }]

/-- The comment after a member of a oneof is in none of the beans. -/
theorem diary_member_untrailed :
    ∃ g as, Graph.build [diary] = .ok g ∧
      beans (Context.prepare ⟨"bean", "conv", .type, false⟩ g [0]) 0 = .ok as ∧
      (diary.commentsAt [4, 0, 2, 0]).bind (·.trailing) = some " No rain." ∧
      remarkLines " No rain." = ["// No rain."] ∧
      ∀ a ∈ as, "// No rain." ∉ bareLines a.content.toList := by
  let g := (Graph.build [diary]).toOption.getD default
  have hg : Graph.build [diary] = .ok g := rfl
  let ctx := Context.prepare ⟨"bean", "conv", .type, false⟩ g [0]
  have hdrafts : (Contents.of ctx 0).toOption.any fun c => (c.drafts ctx none).all fun d =>
      !(d.lines c).contains "// No rain." := by
    decide +kernel
  obtain ⟨c, hc, hall⟩ := exists_eq_ok_of_any hdrafts
  have hwrapper : (ctx.names.file 0).wrapperClass = none := by decide +kernel
  have hbeans : beans ctx 0 = .ok ((c.drafts ctx none).map fun d =>
      sourceFile c d.className d.nested d.steps) := by
    rw [beans_eq_drafts, hc, hwrapper]
    rfl
  refine ⟨g, _, hg, hbeans, rfl, by decide +kernel, ?_⟩
  intro a ha
  obtain ⟨d, hd, rfl⟩ := List.mem_map.mp ha
  rw [Draft.bareLines_sourceFile c (c.drafts_sound ctx none d hd)]
  simpa using List.all_eq_true.mp hall d hd

end Bean

end ProtoJava
