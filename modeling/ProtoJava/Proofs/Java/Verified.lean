import ProtoJava.Proofs.Java.Balance
import ProtoJava.Proofs.Java.Classes
import ProtoJava.Proofs.Java.Pages
import ProtoJava.Proofs.Java.UnicodeEscapes
import ProtoJava.Proofs.Text.Pieces

/-! # Verified source files

A source file of balanced steps passes its verification: the blank lines that a page drops make no
difference to its brackets, and every annotated name is an identifier.
-/

namespace ProtoJava.Java

open Text

/-- A text, last character first, that is scanned up to its end in code, with the brackets `b` open
there. Of the line feeds at its end, all but one can go. -/
def Scanned (written b : List Char) : Prop :=
  ∃ n core, written = List.replicate n '\n' ++ core ∧ Passes core.reverse [] b ∧
    ∀ r, core = '\n' :: r → r.head? ≠ some '\n'

section Scanned

variable {w cs a b : List Char}

theorem scanned_nil : Scanned [] [] :=
  ⟨0, [], rfl, passes_nil _, by simp⟩

theorem Scanned.passes (h : Scanned w b) : Passes w.reverse [] b := by
  obtain ⟨n, core, rfl, hp, -⟩ := h
  rw [List.reverse_append, List.reverse_replicate]
  exact hp.append (passes_newlines n b)

theorem Scanned.newline (h : Scanned w b) : Scanned ('\n' :: w) b := by
  obtain ⟨n, core, rfl, h⟩ := h
  exact ⟨n + 1, core, rfl, h⟩

/-- A line, not empty, after the text. -/
theorem Scanned.line (h : Scanned w a) (hp : Passes (cs ++ ['\n']) a b) (hn : '\n' ∉ cs)
    (hne : cs ≠ []) : Scanned ('\n' :: (cs.reverse ++ w)) b := by
  refine ⟨0, '\n' :: (cs.reverse ++ w), rfl, ?_, ?_⟩
  · have := h.passes.append hp
    simpa using this
  · intro r hr
    obtain ⟨rfl⟩ := List.tail_eq_of_cons_eq hr
    rw [List.head?_append, List.head?_reverse, List.getLast?_eq_some_getLast hne, Option.some_or]
    rintro h
    exact hn (Option.some.inj h ▸ List.getLast_mem hne)

theorem dropBlankLines_replicate (core : List Char) (n size : Nat)
    (hc : ∀ r, core = '\n' :: r → r.head? ≠ some '\n') :
    ∃ m ≤ n, (Page.dropBlankLines (List.replicate n '\n' ++ core) size).1 =
      List.replicate m '\n' ++ core := by
  induction n generalizing size with
  | zero =>
    refine ⟨0, Nat.le_refl _, ?_⟩
    rw [List.replicate_zero, List.nil_append, Page.dropBlankLines]
    rintro r rfl
    exact hc ('\n' :: r) rfl rfl
  | succ n ih =>
    rw [List.replicate_succ, List.cons_append]
    by_cases hr : ∃ r, List.replicate n '\n' ++ core = '\n' :: r
    · obtain ⟨r, hr⟩ := hr
      obtain ⟨m, hm, h⟩ := ih (size - 1)
      rw [hr] at h ⊢
      exact ⟨m, Nat.le_succ_of_le hm, h⟩
    · refine ⟨n + 1, Nat.le_refl _, ?_⟩
      rw [Page.dropBlankLines]
      · rfl
      · rintro r h
        exact hr ⟨r, (List.cons.inj h).2⟩

theorem Scanned.dropBlankLines (h : Scanned w b) (size : Nat) :
    Scanned (Page.dropBlankLines w size).1 b := by
  obtain ⟨n, core, rfl, hp, hc⟩ := h
  obtain ⟨m, -, h⟩ := dropBlankLines_replicate core n size hc
  exact ⟨m, core, h, hp, hc⟩

end Scanned

theorem passes_spaces (n : Nat) (a : List Char) : Passes (List.replicate n ' ') a a := by
  refine passes_of_scanText ?_
  induction n with
  | zero => rfl
  | succ n ih =>
    rw [List.replicate_succ, scanText_cons]
    exact ih

section Lines

variable {text : String} {a b : List Char}

theorem Line.inline (h : Line text a b) : Inline text := by
  cases h with
  | code h => exact h.newline
  | remark h =>
    obtain ⟨cs, hs, hn⟩ := h
    simp [Inline, hs, hn]

theorem Line.passes (h : Line text a b) : Passes (text.toList ++ ['\n']) a b := by
  cases h with
  | code h => exact (passes_of_scanText h.scan).append (passes_newline b)
  | remark h =>
    obtain ⟨cs, hs, hn⟩ := h
    rw [hs]
    exact passes_comment hn a

end Lines

/-- Every line of a comment is one. -/
theorem remark_of_mem_lineComments {text l : String} (h : l ∈ lineComments text) : Remark l := by
  obtain ⟨cs, hcs, rfl⟩ := List.mem_map.mp h
  obtain ⟨piece, hp, rfl⟩ := List.mem_map.mp hcs
  have htrim : '\n' ∉ trimEnd piece := by
    intro hm
    rw [trimEnd, dropEndWhile, List.mem_reverse] at hm
    have := (List.dropWhile_sublist _).subset hm
    exact not_mem_of_mem_pieces hp (List.mem_reverse.mp this)
  have hd : Inline (String.ofList (disarm (trimEnd piece))) := by
    rw [Inline, String.toList_ofList]
    exact newline_not_mem_disarm htrim
  have hopen : Remark (String.ofList ['/', '/']) := .lit (by simp)
  exact hopen.append hd

namespace Page

variable {p : Page} {steps : List Step} {text : String} {a b : List Char}

/-- Text that passes, after spaces, as a line of a page. -/
theorem scanned_indented (h : Scanned p.written a) {cs : List Char}
    (hp : Passes (cs ++ ['\n']) a b) (hn : '\n' ∉ cs) (hne : cs ≠ []) :
    Scanned ((p.indent.put cs).put ['\n']).written b := by
  have hspaces : Passes (List.replicate (4 * p.depth) ' ' ++ cs ++ ['\n']) a b := by
    rw [List.append_assoc]
    exact (passes_spaces _ a).append hp
  have hline := h.line hspaces ?_ ?_
  · simpa [indent, put] using hline
  · simp [hn]
  · simp [hne]

theorem scanned_line (h : Scanned p.written a) (hl : Line text a b) :
    Scanned (p.line text).written b := by
  unfold line
  split
  · next he =>
    have hb : a = b := by
      cases hl with
      | remark => rfl
      | code hl =>
        have hs := hl.scan
        rw [String.isEmpty_iff.mp he] at hs
        exact congrArg Prod.snd (Option.some.inj hs)
    exact hb ▸ h.newline
  · next hne =>
    refine scanned_indented h hl.passes hl.inline ?_
    simpa using hne

theorem scanned_blank (h : Scanned p.written a) : Scanned p.blank.written a := by
  unfold blank
  split
  · exact h
  · exact h
  · exact h
  · exact h.newline

theorem scanned_close (h : Scanned p.written a) {footer : String} (hl : Line footer a b) :
    Scanned (p.close footer).written b :=
  scanned_line (h.dropBlankLines _) hl

theorem scanned_comment (h : Scanned p.written a) (text : String) :
    Scanned ((lineComments text).foldl Page.line p).written a := by
  have hlines : ∀ l ∈ lineComments text, Line l a a :=
    fun l hl => .remark (remark_of_mem_lineComments hl)
  generalize lineComments text = ls at hlines
  induction ls generalizing p with
  | nil => exact h
  | cons l ls ih =>
    rw [List.forall_mem_cons] at hlines
    exact ih (scanned_line h hlines.1) hlines.2

theorem scanned_annotated (h : Scanned p.written a) (path : Schema.Path)
    {lead name trail : String} (hn : isIdentifier name.toList)
    (ht : Turn (lead ++ name ++ trail) a b) :
    Scanned (p.annotated path lead name trail).written b := by
  have hw : (p.annotated path lead name trail).written =
      ((p.indent.put (lead ++ name ++ trail).toList).put ['\n']).written := by
    simp [annotated, put]
  have hne : (lead ++ name ++ trail).toList ≠ [] := by
    intro he
    rw [String.toList_append, String.toList_append, List.append_eq_nil_iff,
      List.append_eq_nil_iff] at he
    simp [he.1.2, isIdentifier] at hn
  rw [hw]
  exact scanned_indented h (Line.code ht).passes ht.newline hne

/-- Steps that turn the open brackets do so on a page, and do not fail. -/
theorem writeAll_scanned (hs : Turns steps a b) {p : Page} (h : Scanned p.written a) :
    (p.writeAll steps).2 = none ∧ Scanned (p.writeAll steps).1.written b := by
  induction hs generalizing p with
  | nil => exact ⟨rfl, h⟩
  | line hl _ ih =>
    rw [writeAll_cons p rfl]
    exact ih (scanned_line h hl)
  | blank _ ih =>
    rw [writeAll_cons p rfl]
    exact ih (scanned_blank h)
  | comment _ ih =>
    rw [writeAll_cons p rfl]
    exact ih (scanned_comment h _)
  | annotated hi ht _ ih =>
    rw [writeAll_cons p rfl]
    exact ih (scanned_annotated h _ hi ht)
  | @block header footer inner _ _ _ _ _ _ hh _ hf _ ihi ih =>
    obtain ⟨hn, hw⟩ := ihi (p := (p.line header).deeper) (scanned_line h hh)
    rw [writeAll_cons p (by rw [write_block, hn]), write_block]
    exact ih (scanned_close (p := shallower _) hw hf)
  | @body footer inner _ _ _ _ _ _ hf _ ihi ih =>
    obtain ⟨hn, hw⟩ := ihi (p := p.deeper) h
    rw [writeAll_cons p (by rw [write_body, hn]), write_body]
    exact ih (scanned_close (p := shallower _) hw hf)

end Page

theorem anchored_of_isIdentifier {name : String} (h : isIdentifier name.toList) (trail : String) :
    Anchored name trail := by
  obtain ⟨⟨c, hc, -⟩, hall⟩ := isIdentifier_iff.mp h
  have hne : name.toList ≠ [] := by
    rintro hnil
    simp [hnil] at hc
  refine Or.inr ⟨name.toList.getLast hne, List.getLast?_eq_some_getLast hne, ?_⟩
  intro hn
  have := hall _ (List.getLast_mem hne)
  rw [hn] at this
  exact absurd this (by decide)

/-- Steps that turn brackets do not fail, and annotate identifiers. -/
theorem Turns.sound {steps : List Step} {a b : List Char} (h : Turns steps a b) :
    SoundAll steps ∧ ∀ l ∈ labelsOf steps, isIdentifier l.2.toList := by
  induction h with
  | nil => exact ⟨trivial, by simp [labelsOf]⟩
  | line _ _ ih => exact ⟨⟨trivial, ih.1⟩, ih.2⟩
  | blank _ ih => exact ⟨⟨trivial, ih.1⟩, ih.2⟩
  | comment _ ih => exact ⟨⟨trivial, ih.1⟩, ih.2⟩
  | annotated hi _ _ ih =>
    refine ⟨⟨anchored_of_isIdentifier hi _, ih.1⟩, ?_⟩
    rw [labelsOf, List.forall_mem_append]
    exact ⟨by simpa [Step.labels] using hi, ih.2⟩
  | block _ _ _ _ ihi ih =>
    refine ⟨⟨ihi.1, ih.1⟩, ?_⟩
    rw [labelsOf, List.forall_mem_append]
    exact ⟨ihi.2, ih.2⟩
  | body _ _ _ ihi ih =>
    refine ⟨⟨ihi.1, ih.1⟩, ?_⟩
    rw [labelsOf, List.forall_mem_append]
    exact ⟨ihi.2, ih.2⟩

section Prologue

theorem toList_unlines (ls : List String) :
    (unlines ls).toList = ls.flatMap fun l => l.toList ++ ['\n'] := by
  rw [unlines, String.toList_join, List.flatMap_map]
  refine List.flatMap_congr fun l _ => ?_
  rw [String.toList_append]
  rfl

theorem passes_unlines {ls : List String} {a : List Char} (h : ∀ l ∈ ls, Line l a a) :
    Passes (unlines ls).toList a a := by
  rw [toList_unlines]
  induction ls with
  | nil => exact passes_nil a
  | cons l ls ih =>
    rw [List.forall_mem_cons] at h
    exact h.1.passes.append (ih h.2)

variable {package : String} {file : Schema.File} {imports : Imports}

theorem passes_prologue (hp : Neutral package) (hf : Inline file.name) (hi : imports.Tidy) :
    Passes (prologue package file imports).toList [] [] := by
  have hempty : Line "" [] [] := .code neutral_empty.turn
  have hopen : Remark (String.ofList ['/', '/', ' ']) := .lit (by decide)
  have hsource : Remark (String.ofList ('/' :: '/' :: " source: ".toList)) := .lit (by decide)
  have hremark : ∀ t, Inline t → Line ("// " ++ t) [] [] := fun t ht =>
    .remark (hopen.append ht)
  refine passes_unlines fun l hl => ?_
  simp only [List.mem_append, or_assoc] at hl
  rcases hl with hl | hl | hl | hl | hl
  · split at hl
    · simp at hl
    · simp only [List.mem_cons, List.not_mem_nil, or_false] at hl
      rcases hl with rfl | rfl
      · exact .code ((Neutral.append (Neutral.append (fun _ => .lit rfl) hp) fun _ => .lit rfl) _)
      · exact hempty
  · simp only [List.mem_cons, List.not_mem_nil, or_false] at hl
    rcases hl with rfl | rfl
    · exact .remark (.lit (by decide))
    · exact .remark (hsource.append hf)
  · split at hl
    · obtain rfl := List.mem_singleton.mp hl
      rw [String.append_assoc]
      exact hremark _ (hf.append (.lit (by decide)))
    · simp at hl
  · obtain rfl := List.mem_singleton.mp hl
    exact hempty
  · split at hl
    · simp at hl
    · rcases List.mem_append.mp hl with hl | hl
      · exact .code (Imports.neutral_of_mem_lines hi hl).turn
      · obtain rfl := List.mem_singleton.mp hl
        exact hempty

end Prologue

section Head

variable {package name : String}

theorem linePackage?_eq (h : Naming.isPackageName package.toList) :
    linePackage? ("package " ++ package ++ ";").toList = some package.toList := by
  have hline : ("package " ++ package ++ ";").toList =
      "package ".toList ++ (package.toList ++ [';']) := by
    rw [String.toList_append, String.toList_append, List.append_assoc]
    rfl
  rw [linePackage?, hline, dropLead?_append, Option.bind_some, dropSuffix?_append]
  simpa [Option.filter] using h

theorem toList_sourcePath (hp : package ≠ "") : (sourcePath package name).toList =
    (package.toList.map fun c => if c = '.' then '/' else c) ++ '/' ::
      (name.toList ++ ".java".toList) := by
  rw [sourcePath, if_neg (by simpa using hp)]
  simp

theorem isSourceOf_sourcePath (hp : package ≠ "") :
    isSourceOf package.toList (sourcePath package name).toList ↔ '/' ∉ name.toList := by
  have hjava : '/' ∉ ".java".toList := by decide
  have hsuffix : ".java".toList.isSuffixOf (name.toList ++ ".java".toList) :=
    List.isSuffixOf_iff_suffix.mpr (List.suffix_append _ _)
  rw [isSourceOf, toList_sourcePath hp, List.append_cons _ '/' (name.toList ++ _), dropLead?_append]
  simp only [hsuffix, List.contains_eq_mem, List.mem_append, hjava, or_false, Bool.and_true,
    Bool.not_eq_true', decide_eq_false_iff_not]

theorem ne_empty_of_isPackageName (h : Naming.isPackageName package.toList) : package ≠ "" := by
  rintro rfl
  exact absurd h (by decide)

/-- The lines that a file with a package starts with. -/
theorem lines_prologue (hp : Naming.isPackageName package.toList) (file : Schema.File)
    (imports : Imports) (rest : List Char) :
    ∃ more, lines ((prologue package file imports).toList ++ rest) =
      ("package " ++ package ++ ";").toList :: [] :: generatedBy.toList :: more := by
  have hne := ne_empty_of_isPackageName hp
  have hline : '\n' ∉ ("package " ++ package ++ ";").toList :=
    (((Inline.lit (by decide)).append (neutral_of_isPackageName hp).inline).append
      (Inline.lit (by decide)) : Inline ("package " ++ package ++ ";"))
  have hend : ¬ ['\r'] <:+ ("package " ++ package ++ ";").toList := by
    rintro ⟨t, ht⟩
    rw [String.toList_append] at ht
    exact absurd (List.append_inj_right' ht rfl) (by decide)
  obtain ⟨more, hmore⟩ : ∃ more, (prologue package file imports).toList ++ rest =
      ("package " ++ package ++ ";").toList ++ '\n' ::
        ([] ++ '\n' :: (generatedBy.toList ++ '\n' :: more)) := by
    rw [prologue, toList_unlines, if_neg (by simpa using hne)]
    simp only [List.cons_append, List.nil_append, List.flatMap_cons, List.append_assoc]
    exact ⟨_, rfl⟩
  refine ⟨lines more, ?_⟩
  rw [hmore, lines_append hline hend, lines_append (by simp) (by simp),
    lines_append (by decide) (by decide)]

/-- The package line and the header of a file are those that are looked for. -/
theorem checkHead_eq_ok_iff (hp : Naming.isPackageName package.toList) (file : Schema.File)
    (imports : Imports) (rest : List Char) :
    checkHead (sourcePath package name).toList
      ((prologue package file imports).toList ++ rest) = .ok () ↔ '/' ∉ name.toList := by
  obtain ⟨more, hlines⟩ := lines_prologue hp file imports rest
  rw [← isSourceOf_sourcePath (ne_empty_of_isPackageName hp)]
  simp only [checkHead, hlines, List.headD_cons, linePackage?_eq hp]
  cases isSourceOf package.toList (sourcePath package name).toList <;> simp

theorem slash_not_mem_of_isIdentifier (h : isIdentifier name.toList) : '/' ∉ name.toList :=
  fun hm => absurd ((isIdentifier_iff.mp h).2 _ hm) (by decide)

end Head

/-- What the annotations of a source file of balanced steps select are identifiers. -/
theorem isIdentifier_of_mem_annotations {steps : List Step} (hs : Turns steps [] [])
    (path source prologue : String) {a : Annotation} {file : Artifact}
    (hf : file = .assemble path source prologue (({} : Page).writeEach steps))
    (ha : a ∈ file.annotations) :
    isIdentifier ((slice? a.start a.stop file.content.toList).getD []) := by
  obtain ⟨hsound, hlabels⟩ := hs.sound
  have hmem : (a.path, (slice? a.start a.stop file.content.toList).map String.ofList) ∈
      file.labels := List.mem_map.mpr ⟨a, ha, rfl⟩
  rw [hf, Artifact.assemble_labels _ _ _ hsound, ← hf] at hmem
  obtain ⟨l, hl, he⟩ := List.mem_map.mp hmem
  obtain ⟨cs, hcs, hof⟩ := Option.map_eq_some_iff.mp (congrArg Prod.snd he).symm
  have := hlabels l hl
  rw [← hof, String.toList_ofList] at this
  rwa [hcs]

/-- The checks that a verified source file has passed. -/
theorem Artifact.verify_eq_ok_iff (a : Artifact) : a.verify = .ok () ↔
    checkHead a.path.toList a.content.toList = .ok () ∧
      checkBrackets a.content.toList = .ok () ∧
      ∀ x ∈ a.annotations, checkCovered a.content.toList x = .ok () := by
  rw [← forM_eq_ok_iff]
  unfold Artifact.verify
  dsimp only
  split
  · next h =>
    obtain ⟨⟨⟩, hhead, h⟩ := bind_eq_ok_iff.mp h
    obtain ⟨⟨⟩, hbrackets, hcovered⟩ := bind_eq_ok_iff.mp h
    exact iff_of_true rfl ⟨hhead, hbrackets, hcovered⟩
  · next h =>
    refine iff_of_false (by simp) ?_
    rintro ⟨hhead, hbrackets, hcovered⟩
    have hok : (do
        checkHead a.path.toList a.content.toList
        checkBrackets a.content.toList
        a.annotations.forM (checkCovered a.content.toList)) = .ok () := by
      rw [hhead, hbrackets, hcovered]
      rfl
    exact absurd (h.symm.trans hok) (by simp)

/-- A source file of balanced steps passes its verification. -/
theorem verify_assemble {package name : String} {file : Schema.File} {imports : Imports}
    {steps : List Step} (hp : Naming.isPackageName package.toList) (hn : isIdentifier name.toList)
    (hf : Inline file.name) (hi : imports.Tidy) (hs : Turns steps [] []) (source : String) :
    (Artifact.assemble (sourcePath package name) source (prologue package file imports)
      (({} : Page).writeEach steps)).verify = .ok () := by
  obtain ⟨hnone, hscanned⟩ := Page.writeAll_scanned hs (p := {}) scanned_nil
  rw [← Page.writeEach_eq hnone] at hscanned
  let a := Artifact.assemble (sourcePath package name) source (prologue package file imports)
    (({} : Page).writeEach steps)
  have hcontent : a.content.toList = (prologue package file imports).toList ++
      (({} : Page).writeEach steps).written.reverse := by
    rw [← String.toList_ofList (l := (({} : Page).writeEach steps).written.reverse)]
    exact String.toList_append
  have hhead : checkHead a.path.toList a.content.toList = .ok () := by
    rw [hcontent]
    exact (checkHead_eq_ok_iff hp file imports _).mpr (slash_not_mem_of_isIdentifier hn)
  have hbrackets : checkBrackets a.content.toList = .ok () := by
    have hpass := (passes_prologue (neutral_of_isPackageName hp) hf hi).append hscanned.passes
    obtain ⟨line, os, ho, h⟩ := hpass 1 [] rfl
    rw [List.map_eq_nil_iff] at ho
    have hscan := h []
    rw [List.append_nil, ← hcontent, ho] at hscan
    exact hscan
  have hcovered : ∀ x ∈ a.annotations, checkCovered a.content.toList x = .ok () :=
    fun x hx => if_pos (isIdentifier_of_mem_annotations hs _ _ _ rfl hx)
  exact (Artifact.verify_eq_ok_iff a).mpr ⟨hhead, hbrackets, hcovered⟩

end ProtoJava.Java
