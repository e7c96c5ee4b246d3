import ProtoJava.Proofs.Java.UnicodeEscapes
import ProtoJava.Proofs.Java.Verified

/-! # Headers of source files

A line comment ends where its line ends: at a line feed or a carriage return, and at a Unicode
escape of one, since escapes are decoded before comments are found. Comments of a schema are written
so that they stay within their lines; the name of a schema file stands in the header as it is.
-/

namespace ProtoJava.Java

open Text

/-- Text that stays in the line comment that it is put into. -/
structure Contained (cs : List Char) : Prop where
  newline : '\n' ∉ cs
  carriageReturn : '\r' ∉ cs
  escape : ¬ HasUnicodeEscape cs

section Contained

variable {cs : List Char}

/-- Text without anything that could end its line. -/
theorem contained_of_not_mem (hn : '\n' ∉ cs) (hr : '\r' ∉ cs) (hs : '\\' ∉ cs) :
    Contained cs := by
  refine ⟨hn, hr, ?_⟩
  rintro ⟨before, after, rfl, -⟩
  simp at hs

theorem contained_between_iff {lead tail : List Char} (hl : Contained lead)
    (he : lead.getLast? ≠ some '\\') (ht : '\n' ∉ tail ∧ '\r' ∉ tail ∧ 'u' ∉ tail)
    (hn : '\n' ∉ cs) :
    Contained (lead ++ cs ++ tail) ↔ Contained cs := by
  have hescape : HasUnicodeEscape (lead ++ cs ++ tail) ↔ HasUnicodeEscape cs := by
    rw [hasUnicodeEscape_append_of_not_mem ht.2.2, hasUnicodeEscape_append he,
      or_iff_right hl.escape]
  constructor
  · intro h
    have hr := h.carriageReturn
    simp only [List.mem_append, not_or] at hr
    exact ⟨hn, hr.1.2, hescape.not.mp h.escape⟩
  · intro h
    refine ⟨?_, ?_, hescape.not.mpr h.escape⟩
    · simp [hl.newline, h.newline, ht.1]
    · simp [hl.carriageReturn, h.carriageReturn, ht.2.1]

end Contained

/-- A comment of a schema is written as line comments from which none of its text gets out. -/
theorem lineComments_contained {text l : String} (h : l ∈ lineComments text) :
    ∃ cs, l.toList = '/' :: '/' :: cs ∧ Contained cs := by
  obtain ⟨cs, hcs, hn⟩ := remark_of_mem_lineComments h
  obtain ⟨piece, -, rfl⟩ := List.mem_map.mp h
  obtain rfl : disarm piece = cs := by simpa using hcs
  exact ⟨disarm piece, hcs, hn, carriageReturn_not_mem_disarm piece,
    not_hasUnicodeEscape_disarm piece⟩

/-- A line of a header: the package, nothing, an import, or a comment that stays in its line. -/
inductive HeaderLine (package : String) (imports : Imports) : List Char → Prop
  | package : HeaderLine package imports ("package " ++ package ++ ";").toList
  | empty : HeaderLine package imports []
  | imported {line : String} : line ∈ imports.lines → HeaderLine package imports line.toList
  | remark {cs : List Char} : Contained cs → HeaderLine package imports ('/' :: '/' :: cs)

section Header

variable {package : String} {file : Schema.File} {imports : Imports} {l : List Char}

theorem pieces_unlines (ls : List String) :
    pieces '\n' (unlines ls).toList = ls.flatMap (fun l => pieces '\n' l.toList) ++ [[]] := by
  rw [toList_unlines]
  induction ls with
  | nil => rfl
  | cons l ls ih =>
    rw [List.flatMap_cons, List.append_assoc, List.singleton_append, pieces_append, ih,
      List.flatMap_cons, List.append_assoc]

/-- The comments of a header that hold the name of the schema file. -/
def nameLines (file : Schema.File) : List String :=
  ("// source: " ++ file.name) ::
    if file.deprecated then ["// " ++ file.name ++ " is marked deprecated."] else []

theorem inline_of_mem_lines (hi : ∀ e ∈ imports.imported, Inline e.2) {line : String}
    (h : line ∈ imports.lines) : Inline line := by
  obtain ⟨e, he, rfl⟩ := Imports.mem_lines.mp h
  exact (Inline.append (.lit (by decide)) (hi e he)).append (.lit (by decide))

/-- All lines of a header but those with the name of the schema file are as they should be. -/
theorem mem_prologue (hp : Inline package) (hi : ∀ e ∈ imports.imported, Inline e.2)
    (h : l ∈ pieces '\n' (prologue package file imports).toList) :
    HeaderLine package imports l ∨ ∃ line ∈ nameLines file, l ∈ pieces '\n' line.toList := by
  have hopen : '\n' ∉ "package ".toList := by decide
  have hend : '\n' ∉ ";".toList := by decide
  have hline : Inline ("package " ++ package ++ ";") :=
    (Inline.append (.lit hopen) hp).append (.lit hend)
  have hgenerated : Contained " Code generated by protoc-gen-bean. DO NOT EDIT.".toList :=
    contained_of_not_mem (by decide) (by decide) (by decide)
  rw [prologue, pieces_unlines, List.mem_append, List.mem_flatMap] at h
  rcases h with ⟨line, hm, hl⟩ | h
  · have hself : Inline line → l = line.toList := by
      intro hin
      simpa [pieces_of_not_mem hin] using hl
    simp only [List.mem_append, or_assoc] at hm
    rcases hm with hm | hm | hm | hm | hm
    · split at hm
      · simp at hm
      · rcases List.mem_cons.mp hm with rfl | hm
        · exact Or.inl (hself hline ▸ .package)
        · obtain rfl := List.mem_singleton.mp hm
          exact Or.inl (hself (.lit (by decide)) ▸ .empty)
    · rcases List.mem_cons.mp hm with rfl | hm
      · exact Or.inl (hself (.lit (by decide)) ▸ .remark hgenerated)
      · exact Or.inr ⟨line, List.mem_cons.mpr (Or.inl (List.mem_singleton.mp hm)), hl⟩
    · exact Or.inr ⟨line, List.mem_cons_of_mem _ hm, hl⟩
    · obtain rfl := List.mem_singleton.mp hm
      exact Or.inl (hself (.lit (by decide)) ▸ .empty)
    · split at hm
      · simp at hm
      · rcases List.mem_append.mp hm with hm | hm
        · exact Or.inl (hself (inline_of_mem_lines hi hm) ▸ .imported hm)
        · obtain rfl := List.mem_singleton.mp hm
          exact Or.inl (hself (.lit (by decide)) ▸ .empty)
  · exact Or.inl (List.mem_singleton.mp h ▸ .empty)

theorem mem_prologue_of_nameLines {line : String} (h : line ∈ nameLines file)
    (hl : l ∈ pieces '\n' line.toList) :
    l ∈ pieces '\n' (prologue package file imports).toList := by
  rw [prologue, pieces_unlines, List.mem_append, List.mem_flatMap]
  refine Or.inl ⟨line, ?_, hl⟩
  simp only [List.mem_append, or_assoc]
  rcases List.mem_cons.mp h with rfl | h
  · exact Or.inr (Or.inl (by simp))
  · exact Or.inr (Or.inr (Or.inl h))

/-- A line that begins like a comment is one, and stays in its line. -/
theorem HeaderLine.contained {cs : List Char} (h : HeaderLine package imports ('/' :: '/' :: cs)) :
    Contained cs := by
  generalize hl : '/' :: '/' :: cs = l at h
  cases h with
  | package => simp [String.toList_append] at hl
  | empty => simp at hl
  | imported h =>
    obtain ⟨full, -, rfl⟩ := List.mem_map.mp h
    simp [String.toList_append] at hl
  | remark h =>
    obtain rfl : cs = _ := by simpa using hl
    exact h

/-- The comments with a name within one line are contained if the name is. -/
theorem nameLines_contained (hn : Inline file.name) {line : String} (h : line ∈ nameLines file) :
    ∃ cs, line.toList = '/' :: '/' :: cs ∧ (Contained cs ↔ Contained file.name.toList) := by
  rcases List.mem_cons.mp h with rfl | h
  · refine ⟨" source: ".toList ++ file.name.toList, by simp, ?_⟩
    have hlead : Contained " source: ".toList :=
      contained_of_not_mem (by decide) (by decide) (by decide)
    have hnone : '\n' ∉ ([] : List Char) ∧ '\r' ∉ ([] : List Char) ∧ 'u' ∉ ([] : List Char) := by
      simp
    simpa using contained_between_iff hlead (by decide) hnone hn
  · split at h
    · obtain rfl := List.mem_singleton.mp h
      refine ⟨" ".toList ++ file.name.toList ++ " is marked deprecated.".toList, by simp, ?_⟩
      exact contained_between_iff (contained_of_not_mem (by decide) (by decide) (by decide))
        (by decide) (by decide) hn
    · simp at h

/-- A name within one line is contained if the header with it is as it should be. -/
theorem contained_of_headerLines (hn : Inline file.name)
    (h : ∀ l ∈ pieces '\n' (prologue package file imports).toList,
      HeaderLine package imports l) : Contained file.name.toList := by
  have hsource : '\n' ∉ "// source: ".toList := by decide
  have hline : Inline ("// source: " ++ file.name) := (Inline.lit hsource).append hn
  have hfirst : "// source: " ++ file.name ∈ nameLines file := List.mem_cons_self
  obtain ⟨cs, hcs, hc⟩ := nameLines_contained hn hfirst
  have hmem : ("// source: " ++ file.name).toList ∈
      pieces '\n' (prologue package file imports).toList := by
    refine mem_prologue_of_nameLines hfirst ?_
    rw [pieces_of_not_mem hline]
    exact List.mem_singleton_self _
  exact hc.mp (h _ (hcs ▸ hmem)).contained

/-- A header is as it should be just if the name of its schema file is contained. What follows a
line feed in the name stands in the header as lines of its own, whatever it is. -/
theorem prologue_headerLine_iff (hp : Inline package) (hi : ∀ e ∈ imports.imported, Inline e.2)
    (file : Schema.File) :
    (Inline file.name → ((∀ l ∈ pieces '\n' (prologue package file imports).toList,
      HeaderLine package imports l) ↔ Contained file.name.toList)) ∧
    ∀ l ∈ (pieces '\n' file.name.toList).tail,
      l ∈ pieces '\n' (prologue package file imports).toList := by
  constructor
  · intro hn
    constructor
    · exact fun h => contained_of_headerLines hn h
    · intro h l hl
      rcases mem_prologue hp hi hl with hl | ⟨line, hline, hl⟩
      · exact hl
      · obtain ⟨cs, hcs, hc⟩ := nameLines_contained hn hline
        have hcontained := hc.mpr h
        rw [hcs, pieces_of_not_mem (by simp [hcontained.newline]), List.mem_singleton] at hl
        exact hl ▸ .remark hcontained
  · intro l hl
    refine mem_prologue_of_nameLines List.mem_cons_self (List.mem_of_mem_tail ?_)
    rwa [String.toList_append, tail_pieces_append (by decide)]

theorem prologue_headerLine_iff_deprecated :
    let imports : Imports := { package := "p", imported := [("List", "java.util.List")] }
    let file : Schema.File := { name := "a.proto", deprecated := true }
    Inline "p" ∧ (∀ e ∈ imports.imported, Inline e.2) ∧ Inline file.name ∧
      Contained file.name.toList ∧
      ∀ l ∈ pieces '\n' (prologue "p" file imports).toList, HeaderLine "p" imports l := by
  intro imports file
  have hp : Inline "p" := by decide
  have hi : ∀ e ∈ imports.imported, Inline e.2 := by decide
  have hn : Inline file.name := by decide
  have hc : Contained file.name.toList :=
    contained_of_not_mem (by decide) (by decide) (by decide)
  exact ⟨hp, hi, hn, hc, ((prologue_headerLine_iff hp hi file).1 hn).mpr hc⟩

/-- A schema file whose name holds the escape of a line feed. -/
def escaping : Schema.File where
  name := "a\\u000aclass X.proto"

/-- The name of a schema file can get out of its comment. -/
theorem prologue_escapes : ¬ ∀ l ∈ pieces '\n' (prologue "p" escaping { package := "p" }).toList,
    HeaderLine "p" { package := "p" } l := by
  intro h
  have hn : Inline escaping.name := by decide
  exact (contained_of_headerLines hn h).escape
    ⟨"a".toList, "000aclass X.proto".toList, by decide, by decide⟩

end Header

end ProtoJava.Java
