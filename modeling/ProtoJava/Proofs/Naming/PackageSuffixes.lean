import ProtoJava.Proofs.Java.Verified
import ProtoJava.Proofs.Naming.Packages

/-! # Package suffixes

A dotted text is spelled as a package name, segment by segment. Segments that are legal are spelled
as they are, and every segment that is spelled is legal, so nothing is left to be done by spelling
the result once more.
-/

namespace ProtoJava.Text

section Lower

variable {c : Char} {cs : List Char}

/-- The runs of capitals leave out whatever stands below the small letters, or among them. -/
theorem mapRuns_lower_eq_self (hc : c.toNat ≤ 0x7a) (hu : ¬ c.isUpper) :
    mapRuns lowerRuns c = c := by
  have hruns : ∀ run ∈ lowerRuns,
      0x41 ≤ run.first ∧ run.last ≤ 0x5a ∨ 0x7a < run.first := by
    decide +kernel
  rw [isUpper_iff] at hu
  have hnone : lowerRuns.findSome? (·.map? c.toNat) = none := by
    rw [List.findSome?_eq_none_iff]
    intro run hrun
    have := hruns run hrun
    rw [CaseRun.map?, if_neg]
    omega
  rw [mapRuns, hnone]

theorem lowerFrom_eq_self (before : List Char)
    (h : ∀ c ∈ cs, c.toNat ≤ 0x7a ∧ ¬ c.isUpper) : lowerFrom before cs = cs := by
  induction cs generalizing before with
  | nil => rfl
  | cons c cs ih =>
    rw [List.forall_mem_cons] at h
    have hsigma : c ≠ '\u03a3' := by
      rintro rfl
      exact absurd h.1.1 (by decide)
    have hdotted : c ≠ '\u0130' := by
      rintro rfl
      exact absurd h.1.1 (by decide)
    rw [lowerFrom, if_neg hsigma, lowerChar, if_neg hdotted, mapRuns_lower_eq_self h.1.1 h.1.2,
      ih (c :: before) h.2]
    rfl

theorem lower_eq_self (h : ∀ c ∈ cs, c.toNat ≤ 0x7a ∧ ¬ c.isUpper) : lower cs = cs :=
  lowerFrom_eq_self [] h

end Lower

end ProtoJava.Text

namespace ProtoJava.Naming

open Text
open Schema (File Graph)

/-- The segments of a dotted text. -/
def segments (s : String) : List String :=
  ((pieces '.' s.toList).filter (· ≠ [])).map String.ofList

/-- A segment of a package that can be declared. -/
structure LegalSegment (x : String) : Prop where
  segment : isSegment x.toList
  free : x ∉ keywords

/-- A package name is the one spelled after a text: it has a legal segment for each segment of the
text, and is spelled as it is. -/
structure SpelledAfter (s package : String) : Prop where
  empty : package = "" ↔ ∀ c ∈ s.toList, c = '.'
  joined : package = joined "." (segments package)
  count : (segments package).length = (segments s).length
  legal : ∀ x ∈ segments package, LegalSegment x
  stable : packageSuffix package = package

/-- A package stands below another one, where that is asked for with a suffix, and in a line that
declares it. -/
structure PlacedBelow (parent suffix package : String) : Prop where
  variant : IsVariant (if suffix.isEmpty then parent else parent ++ "." ++ suffix) package
  line : Java.linePackage? ("package " ++ package ++ ";").toList = some package.toList

section Characters

variable {c : Char}

theorem isWord_of_isSegmentPart (h : isSegmentPart c) : isWord c := by
  delta isSegmentPart isSegmentStart at h
  delta isWord Char.isAlphanum Char.isAlpha
  simp only [Bool.or_eq_true, decide_eq_true_eq] at h ⊢
  tauto

theorem segmentChar_eq_self (h : isSegmentPart c) : segmentChar c = c :=
  if_pos (isWord_of_isSegmentPart h)

theorem not_isUpper_of_isSegmentPart (h : isSegmentPart c) : c.toNat ≤ 0x7a ∧ ¬ c.isUpper := by
  have := of_isWord (p := fun c => !isSegmentPart c || (c.toNat ≤ 0x7a && !c.isUpper))
    (by decide) (isWord_of_isSegmentPart h)
  simpa [h] using this

theorem not_isDigit_of_isSegmentStart (h : isSegmentStart c) : ¬ c.isDigit := by
  have hpart : isSegmentPart c := by simp [isSegmentPart, h]
  have := of_isWord (p := fun c => !isSegmentStart c || !c.isDigit) (by decide)
    (isWord_of_isSegmentPart hpart)
  simpa [h] using this

end Characters

section Segments

variable {cs : List Char} {s x : String}

theorem ne_nil_of_isSegment (h : isSegment cs) : cs ≠ [] := by
  rintro rfl
  exact absurd h (by decide)

theorem not_mem_of_isSegment (h : isSegment cs) : '.' ∉ cs :=
  fun hm => absurd ((isSegment_iff.mp h).2 _ hm) (by decide)

theorem mem_segments : x ∈ segments s ↔ x.toList ∈ pieces '.' s.toList ∧ x ≠ "" := by
  simp only [segments, List.mem_map, List.mem_filter, decide_eq_true_eq]
  constructor
  · rintro ⟨p, ⟨hp, hne⟩, rfl⟩
    rw [String.toList_ofList]
    exact ⟨hp, by simpa using hne⟩
  · rintro ⟨hp, hne⟩
    exact ⟨x.toList, ⟨hp, by simpa using hne⟩, String.ofList_toList⟩

theorem segments_eq_nil_iff : segments s = [] ↔ ∀ c ∈ s.toList, c = '.' := by
  rw [segments, List.map_eq_nil_iff, List.filter_eq_nil_iff]
  constructor
  · intro h c hc
    rcases mem_pieces_of_mem '.' hc with rfl | ⟨p, hp, hcp⟩
    · rfl
    · exact absurd (by simpa using List.ne_nil_of_mem hcp) (h p hp)
  · intro h p hp
    suffices hp : p = [] by simpa using hp
    refine List.eq_nil_iff_forall_not_mem.mpr fun c hc => not_mem_of_mem_pieces hp ?_
    exact h c (mem_of_mem_pieces hp hc) ▸ hc

theorem segments_joined {xs : List String} (h : ∀ x ∈ xs, isSegment x.toList) :
    segments (joined "." xs) = xs := by
  cases xs with
  | nil => rfl
  | cons y ys =>
    have hpieces : pieces '.' (joined "." (y :: ys)).toList = (y :: ys).map String.toList :=
      pieces_joined (List.cons_ne_nil y ys) fun x hx => not_mem_of_isSegment (h x hx)
    have hall : ((y :: ys).map String.toList).filter (· ≠ []) = (y :: ys).map String.toList := by
      refine List.filter_eq_self.mpr fun p hp => ?_
      obtain ⟨x, hx, rfl⟩ := List.mem_map.mp hp
      exact decide_eq_true (ne_nil_of_isSegment (h x hx))
    rw [segments, hpieces, hall, List.map_map]
    exact List.map_id'' (fun x => String.ofList_toList) (y :: ys)

theorem answer_not_mem_keywords (name : String) :
    Registry.reserving.answer name ∉ keywords := by
  have hfree := Registry.reserving.answer_free name
  generalize Registry.reserving.answer name = x at hfree ⊢
  intro hm
  have htaken : Registry.reserving.contains x = true :=
    List.contains_iff_mem.mpr (List.mem_append_left libraryTypes hm)
  exact Bool.noConfusion (htaken.symm.trans hfree)

/-- No segment is spelled as a word of the language. -/
theorem segmentOf_not_mem_keywords (cs : List Char) : segmentOf cs ∉ keywords := by
  dsimp only [segmentOf]
  generalize String.ofList (if ((lower cs).map segmentChar).head?.any Char.isDigit then
    '_' :: (lower cs).map segmentChar else (lower cs).map segmentChar) = name
  split
  · exact answer_not_mem_keywords name
  · next hk => simpa using hk

theorem legalSegment_segmentOf (h : cs ≠ []) : LegalSegment (segmentOf cs) :=
  ⟨isSegment_segmentOf h, segmentOf_not_mem_keywords cs⟩

/-- A legal segment is spelled as it is. -/
theorem LegalSegment.segmentOf_eq (h : LegalSegment x) : segmentOf x.toList = x := by
  obtain ⟨⟨c, hc, hstart⟩, hparts⟩ := isSegment_iff.mp h.segment
  have hspelled : (lower x.toList).map segmentChar = x.toList := by
    rw [lower_eq_self fun d hd => not_isUpper_of_isSegmentPart (hparts d hd)]
    rw [List.map_congr_left fun d hd => segmentChar_eq_self (hparts d hd), List.map_id']
  have hdigit : ¬ x.toList.head?.any Char.isDigit := by
    rw [hc]
    exact not_isDigit_of_isSegmentStart hstart
  simp only [segmentOf, hspelled, if_neg hdigit, String.ofList_toList]
  exact if_neg (by simpa using h.free)

end Segments

section Suffixes

variable {s : String}

theorem packageSuffix_eq (s : String) :
    packageSuffix s = joined "." ((segments s).map fun x => segmentOf x.toList) := by
  simp [packageSuffix, segments, Function.comp_def]

theorem legalSegment_of_mem_map {x : String}
    (h : x ∈ (segments s).map fun x => segmentOf x.toList) : LegalSegment x := by
  obtain ⟨y, hy, rfl⟩ := List.mem_map.mp h
  exact legalSegment_segmentOf (by simpa using (mem_segments.mp hy).2)

/-- The segments of a suffix are those of the text, each spelled alone. -/
theorem segments_packageSuffix (s : String) :
    segments (packageSuffix s) = (segments s).map fun x => segmentOf x.toList := by
  rw [packageSuffix_eq, segments_joined fun x hx => (legalSegment_of_mem_map hx).segment]

theorem legalSegment_of_mem_packageSuffix {x : String} (h : x ∈ segments (packageSuffix s)) :
    LegalSegment x :=
  legalSegment_of_mem_map (segments_packageSuffix s ▸ h)

/-- Legal segments with dots between them are spelled as they are. -/
theorem packageSuffix_joined {xs : List String} (h : ∀ x ∈ xs, LegalSegment x) :
    packageSuffix (joined "." xs) = joined "." xs := by
  rw [packageSuffix_eq, segments_joined fun x hx => (h x hx).segment,
    List.map_congr_left fun x hx => (h x hx).segmentOf_eq, List.map_id']

theorem packageSuffix_eq_empty_iff : packageSuffix s = "" ↔ ∀ c ∈ s.toList, c = '.' := by
  rw [← segments_eq_nil_iff]
  constructor
  · intro h
    have hnil := segments_packageSuffix s
    rw [h] at hnil
    exact List.map_eq_nil_iff.mp hnil.symm
  · intro h
    rw [packageSuffix_eq, h]
    rfl

theorem spelledAfter_packageSuffix (s : String) : SpelledAfter s (packageSuffix s) := by
  have hlegal : ∀ x ∈ segments (packageSuffix s), LegalSegment x :=
    fun x => legalSegment_of_mem_packageSuffix
  have hjoined : packageSuffix s = joined "." (segments (packageSuffix s)) := by
    rw [segments_packageSuffix, packageSuffix_eq]
  constructor
  case empty => exact packageSuffix_eq_empty_iff
  case joined => exact hjoined
  case count => rw [segments_packageSuffix, List.length_map]
  case legal => exact hlegal
  case stable =>
    rw [hjoined]
    exact packageSuffix_joined hlegal

end Suffixes

section Files

variable {text : String} {o : Options} {g : Graph}

/-- What the suffix of a file is spelled after: its package, or its name if it has none. -/
def suffixSource (f : File) : String :=
  if f.package.isEmpty then f.baseName else f.package

theorem packageRequest_eq (o : Options) (f : File) :
    packageRequest o f = if (packageSuffix (suffixSource f)).isEmpty then o.beanPackage
      else o.beanPackage ++ "." ++ packageSuffix (suffixSource f) := by
  rw [packageRequest, suffixSource]

theorem placedBelow_beanPackage (h : isPackageName o.beanPackage.toList) (generate : List Nat)
    {i : Nat} (hi : i < g.files.length) :
    PlacedBelow o.beanPackage (packageSuffix (suffixSource (g.file i)))
      ((allocate o g generate).file i).beanPackage := by
  constructor
  case variant =>
    obtain ⟨package, converter, hm, hf⟩ := allocate_file o generate hi
    rw [hf, ← packageRequest_eq]
    exact package_isVariant hm
  case line => exact Java.linePackage?_eq (isPackageName_beanPackage h generate hi)

/-- Suffixes of packages are spelled once and for all, and packages of files are spelled with
them. -/
theorem packages_spelled :
    (∀ s, SpelledAfter s (packageSuffix s)) ∧
      ∀ (text : String) (o : Options), Options.read text = .ok o →
        ∀ (g : Graph) (generate : List Nat), ∀ i < g.files.length,
          PlacedBelow o.beanPackage (packageSuffix (suffixSource (g.file i)))
            ((allocate o g generate).file i).beanPackage := by
  constructor
  case left => exact spelledAfter_packageSuffix
  case right =>
    intro text o h g generate i hi
    exact placedBelow_beanPackage (Options.read_packages h).1 generate hi

/-- Files whose packages are spelled alike, and one that has none. -/
def lookalikes : List Descriptor.File :=
  [{ name := "a.proto", package := "Int" }, { name := "b.proto", package := "..int" },
    { name := "1st one.proto" }]

theorem packages_spelled_lookalikes :
    ∃ o g, Options.read "vopkg=.Bean." = .ok o ∧ Graph.build lookalikes = .ok g ∧
      (allocate o g [1]).files.map (·.beanPackage) =
        ["bean.int11", "bean.int1", "bean._1st_one"] ∧
      packageSuffix "\u212a..1st.INT._.A\u03a3" = "k._1st.int1._1.a_" ∧
      SpelledAfter "\u212a..1st.INT._.A\u03a3" (packageSuffix "\u212a..1st.INT._.A\u03a3") ∧
      ∀ i < g.files.length,
        PlacedBelow o.beanPackage (packageSuffix (suffixSource (g.file i)))
          ((allocate o g [1]).file i).beanPackage := by
  have ho : Options.read "vopkg=.Bean." = .ok ⟨"bean", "bean.converter", .type, false⟩ := by
    decide
  refine ⟨_, _, ho, rfl, ?packages, ?suffix, ?spelled, ?placed⟩
  case packages => decide +kernel
  case suffix => decide +kernel
  case spelled => exact packages_spelled.1 _
  case placed => exact packages_spelled.2 _ _ ho _ [1]

end Files

end ProtoJava.Naming
