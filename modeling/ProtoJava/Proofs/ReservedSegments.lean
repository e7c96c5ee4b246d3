import ProtoJava.Proofs.Naming.PackageSuffixes
import ProtoJava.Proofs.Paths

/-! # Reserved words in packages

A suffix has no word of the language for a segment, and no word ends in a digit. So the words in the
packages of source files are those in the packages that options give, which are not looked at.
-/

namespace ProtoJava

open Text

namespace Naming

variable {s t x : String}

/-- The segments of a package that are words of the language. -/
def reservedSegments (package : String) : List String :=
  (segments package).filter keywords.contains

theorem toList_dotted (s t : String) :
    (s ++ "." ++ t).toList = s.toList ++ '.' :: t.toList := by
  rw [String.toList_append, String.toList_append, List.append_assoc]
  rfl

theorem segments_append (s t : String) : segments (s ++ "." ++ t) = segments s ++ segments t := by
  rw [segments, toList_dotted, pieces_append, List.filter_append, List.map_append, segments,
    segments]

theorem reservedSegments_append (s t : String) :
    reservedSegments (s ++ "." ++ t) = reservedSegments s ++ reservedSegments t := by
  rw [reservedSegments, segments_append, List.filter_append, reservedSegments, reservedSegments]

theorem reservedSegments_packageSuffix (s : String) :
    reservedSegments (packageSuffix s) = [] := by
  refine List.filter_eq_nil_iff.mpr fun x hx hc => ?_
  exact (legalSegment_of_mem_packageSuffix hx).free (List.contains_iff_mem.mp hc)

theorem segments_of_isPackageName (h : isPackageName s.toList) :
    segments s = (pieces '.' s.toList).map String.ofList := by
  rw [segments, List.filter_eq_self.mpr fun p hp => ?_]
  exact decide_eq_true (ne_nil_of_isSegment (isPackageName_iff.mp h p hp))

theorem not_isDigit_of_mem_keywords {c : Char} (h : s ∈ keywords) (hc : c ∈ s.toList) :
    ¬ c.isDigit := by
  have hwords : ∀ w ∈ keywords, ∀ c ∈ w.toList, !c.isDigit := by decide
  simpa using hwords s h c hc

theorem numbered_not_mem_keywords (s : String) (n : Nat) : s ++ toString n ∉ keywords := by
  intro hm
  obtain ⟨c, hc⟩ := List.exists_mem_of_ne_nil _ (toList_nat_ne_nil n)
  have hmem : c ∈ (s ++ toString n).toList := by
    rw [String.toList_append]
    exact List.mem_append_right _ hc
  exact not_isDigit_of_mem_keywords hm hmem (isDigit_of_mem_nat hc)

/-- A number after a package makes its last segment another one, which is no word. -/
theorem reservedSegments_numbered (h : isPackageName s.toList) (n : Nat) :
    reservedSegments (s ++ toString n) = (segments s).dropLast.filter keywords.contains := by
  have hdot : '.' ∉ (toString n).toList :=
    fun hm => absurd (isDigit_of_mem_nat hm) (by decide)
  obtain ⟨ps, p, hs, hn⟩ := pieces_append_of_not_mem hdot s.toList
  rw [← String.toList_append] at hn
  have hlast : [String.ofList (p ++ (toString n).toList)].filter keywords.contains = [] := by
    rw [List.filter_eq_nil_iff, List.forall_mem_singleton, String.ofList_append,
      String.ofList_toList]
    exact fun hc => numbered_not_mem_keywords _ n (List.contains_iff_mem.mp hc)
  rw [reservedSegments, segments_of_isPackageName (isPackageName_numbered s n h), hn,
    segments_of_isPackageName h, hs]
  simp only [List.map_append, List.map_singleton, List.filter_append, List.dropLast_concat, hlast,
    List.append_nil]

/-- A number that is put after a package below another one leaves the words of that one. -/
theorem reservedSegments_below (hs : isPackageName s.toList) (ht : isPackageName t.toList)
    (hr : reservedSegments t = []) (h : IsVariant (s ++ "." ++ t) x) :
    reservedSegments x = reservedSegments s := by
  rcases h with rfl | ⟨n, rfl⟩
  · rw [reservedSegments_append, hr, List.append_nil]
  · have hbelow : isPackageName (s ++ "." ++ t).toList :=
      toList_dotted s t ▸ isPackageName_append hs ht
    have hne : segments t ≠ [] := by
      rw [segments_of_isPackageName ht]
      exact mt List.map_eq_nil_iff.mp (pieces_ne_nil '.' t.toList)
    have hlast : (segments t).dropLast.filter keywords.contains = [] :=
      List.eq_nil_of_sublist_nil (hr ▸ (List.dropLast_sublist _).filter _)
    rw [reservedSegments_numbered hbelow, segments_append, List.dropLast_append_of_ne_nil hne,
      List.filter_append, hlast, List.append_nil, reservedSegments]

theorem numbered_ne (s : String) (n : Nat) : s ++ toString n ≠ s := by
  intro h
  have hlist := congrArg String.toList h
  rw [String.toList_append] at hlist
  exact toList_nat_ne_nil n (List.append_cancel_left (hlist.trans (List.append_nil _).symm))

/-- The package of a file has the words of the package for beans, apart from a last one that a
number is put after. -/
theorem reservedSegments_of_placedBelow {parent : String} (hp : isPackageName parent.toList)
    (h : PlacedBelow parent (packageSuffix s) x) :
    reservedSegments x =
      if (packageSuffix s).isEmpty ∧ x ≠ parent then
        (segments parent).dropLast.filter keywords.contains
      else reservedSegments parent := by
  have hvariant := h.variant
  by_cases hs : (packageSuffix s).isEmpty
  · rw [if_pos hs] at hvariant
    rcases hvariant with rfl | ⟨n, rfl⟩
    · rw [if_neg (by simp)]
    · rw [if_pos ⟨hs, numbered_ne parent n⟩, reservedSegments_numbered hp]
  · rw [if_neg hs] at hvariant
    rw [if_neg fun hc => hs hc.1]
    exact reservedSegments_below hp (isPackageName_packageSuffix hs)
      (reservedSegments_packageSuffix s) hvariant

end Naming

section Given

/-- The package that a text of options gives for a key. -/
def givenPackage (text key : String) : String :=
  String.ofList (normalPackage ((optionValue? (optionItems text.toList) key).getD []))

variable {text : String} {o : Options}

theorem Options.read_given (h : Options.read text = .ok o) :
    o.beanPackage = givenPackage text "vopkg" ∧
      o.converterPackage = if givenPackage text "cvtpkg" = "" then o.beanPackage ++ ".converter"
        else givenPackage text "cvtpkg" := by
  obtain ⟨hbean, hconverter, -⟩ := Options.read_eq_ok_iff.mp h
  replace hbean := (packageFor_eq_ok_iff.mp hbean).2
  replace hconverter := (packageFor_eq_ok_iff.mp hconverter).2
  rw [← hbean, ← String.toList_append] at hconverter
  refine ⟨String.ext (hbean.trans String.toList_ofList.symm), String.ext (hconverter.trans ?_)⟩
  simp only [givenPackage, String.ofList_eq_empty_iff, apply_ite String.toList,
    String.toList_ofList]

end Given

namespace Java

/-- The package that the first line of a source file declares. -/
def Artifact.package? (a : Artifact) : Option String :=
  (linePackage? ((lines a.content.toList).headD [])).map String.ofList

theorem Artifact.Declares.package?_eq {a : Artifact} {c : ClassName} (h : a.Declares c)
    (hp : Naming.isPackageName c.package.toList) : a.package? = some c.package := by
  obtain ⟨source, file, imports, page, rfl⟩ := h
  obtain ⟨more, hlines⟩ := lines_prologue hp file imports page.text.toList
  simp only [package?, assemble, String.toList_append]
  rw [hlines, List.headD_cons, linePackage?_eq hp, Option.map_some, String.ofList_toList]

end Java

section Declared

open Mapping (Context)
open Naming
open Schema (Graph)

variable {raws : List Descriptor.File} {g : Graph} {o : Options} {i : Nat}

/-- Beans declare the package of their file. -/
theorem beans_package? (hg : Graph.build raws = .ok g) (hp : isPackageName o.beanPackage.toList)
    {generate : List Nat} (hi : i < g.files.length) {as : List Java.Artifact}
    (h : Bean.beans (Context.prepare o g generate) i = .ok as) :
    ∀ a ∈ as, a.package? = some ((allocate o g generate).file i).beanPackage := by
  intro a ha
  have hfits : ((allocate o g generate).file i).Fits o.layout (g.file i) :=
    allocate_fits (Graph.build_linked hg i) hi
  obtain ⟨c, hc, hd⟩ := forall₂_exists (Bean.beans_declares h hfits.extensionsClass) ha
  obtain ⟨name, -, rfl⟩ := List.mem_map.mp hc
  exact hd.package?_eq (isPackageName_beanPackage hp generate hi)

/-- The packages of source files have the words of the packages that options give, apart from a last
one that a number is put after, and they are those that the files declare. -/
theorem declared_reservedSegments {text : String} (ho : Options.read text = .ok o)
    (hg : Graph.build raws = .ok g) (generate : List Nat) (hi : i < g.files.length) :
    let bean := ((allocate o g generate).file i).beanPackage
    let given := givenPackage text "vopkg"
    let ctx := Context.prepare o g generate
    (reservedSegments bean =
      if (packageSuffix (suffixSource (g.file i))).isEmpty ∧ bean ≠ given then
        (segments given).dropLast.filter keywords.contains
      else reservedSegments given) ∧
    (reservedSegments o.converterPackage =
      if givenPackage text "cvtpkg" = "" then reservedSegments given
      else reservedSegments (givenPackage text "cvtpkg")) ∧
    (∀ as, Bean.beans ctx i = .ok as → ∀ a ∈ as, a.package? = some bean) ∧
    ∀ a, Converter.converter ctx i = .ok (some a) → a.package? = some o.converterPackage := by
  obtain ⟨hbean, hconverter⟩ := Options.read_packages ho
  obtain ⟨hgiven, hcvtpkg⟩ := Options.read_given ho
  dsimp only
  rw [← hgiven]
  refine ⟨?words, ?converterWords, ?beans, ?converter⟩
  case words =>
    exact reservedSegments_of_placedBelow hbean (placedBelow_beanPackage hbean generate hi)
  case converterWords =>
    rw [hcvtpkg]
    split
    · have hbelow : o.beanPackage ++ ".converter" = o.beanPackage ++ "." ++ "converter" := by
        rw [String.append_assoc]
        rfl
      have hfree : reservedSegments "converter" = [] := by decide
      rw [hbelow, reservedSegments_append, hfree, List.append_nil]
    · rfl
  case beans =>
    exact fun as h => beans_package? hg hbean hi h
  case converter =>
    intro a h
    have hd := Converter.converter_declares h
    split at hd
    · obtain ⟨a', ha, hd⟩ := hd
      obtain rfl := Option.some.inj ha
      exact hd.package?_eq hconverter
    · exact absurd hd (by simp)

/-- Two files without a suffix, and one whose package has a word for a segment. -/
def dotted : List Descriptor.File :=
  [{ name := "a.proto", package := "..", enums := [{ name := "A", values := [{ name := "A0" }] }] },
    { name := "b.proto", package := "." }, { name := "c.proto", package := "x.case" }]

theorem declared_reservedSegments_dotted :
    ∃ o g, Options.read "vopkg=.New.Int.,cvtpkg=class" = .ok o ∧
      Graph.build dotted = .ok g ∧
      ((allocate o g [1]).files.map fun n => (n.beanPackage, reservedSegments n.beanPackage)) =
        [("new.int1", ["new"]), ("new.int", ["new", "int"]),
          ("new.int.x.case1", ["new", "int"])] ∧
      reservedSegments o.converterPackage = ["class"] ∧
      ∀ as, Bean.beans (Context.prepare o g [1]) 0 = .ok as →
        ∀ a ∈ as, a.package? = some ((allocate o g [1]).file 0).beanPackage := by
  have ho : Options.read "vopkg=.New.Int.,cvtpkg=class" =
      .ok ⟨"new.int", "class", .type, false⟩ := by
    decide
  let g := (Graph.build dotted).toOption.getD default
  have hg : Graph.build dotted = .ok g := rfl
  have hfiles : 0 < g.files.length := by decide
  obtain ⟨-, hconverter, hbeans, -⟩ := declared_reservedSegments ho hg [1] hfiles
  refine ⟨_, g, ho, hg, ?packages, ?converter, hbeans⟩
  case packages => decide
  case converter =>
    rw [hconverter]
    decide

/-- A file whose beans are put below a package that has a word for a segment. -/
def demo : Descriptor.File where
  name := "demo.proto"
  package := "demo"
  enums := [{ name := "E", values := [{ name := "E0" }] }]

/-- A package that is given with a word for a segment is taken, and source files that declare it are
verified. -/
theorem declared_reservedSegments_int :
    ∃ o g as, Options.read "vopkg=int.vo" = .ok o ∧ Graph.build [demo] = .ok g ∧
      Bean.beans (Context.prepare o g [0]) 0 = .ok as ∧ as ≠ [] ∧
      (∀ a ∈ as, a.package? = some "int.vo.demo" ∧ a.verify = .ok ()) ∧
      "int" ∈ segments "int.vo.demo" ∧ "int" ∈ keywords := by
  let o : Options := ⟨"int.vo", "int.vo.converter", .type, false⟩
  have ho : Options.read "vopkg=int.vo" = .ok o := by decide
  let g := (Graph.build [demo]).toOption.getD default
  have hg : Graph.build [demo] = .ok g := rfl
  have hfiles : 0 < g.files.length := by decide
  have hbeans : (Bean.beans (Context.prepare o g [0]) 0).toOption.any (!·.isEmpty) := by
    decide
  obtain ⟨as, has, hne⟩ := exists_eq_ok_of_any hbeans
  obtain ⟨hbean, hconverter⟩ := Options.read_packages ho
  have hctx : (Context.prepare o g [0]).Proper :=
    prepare_proper hg (by decide) hbean hconverter (by decide)
  have hnames : ((Context.prepare o g [0]).names.file 0).Proper :=
    hctx.names _ (allocate_file_mem hfiles)
  have hpackage : ((allocate o g [0]).file 0).beanPackage = "int.vo.demo" := by decide
  refine ⟨o, g, as, ho, hg, has, by simpa using hne, fun a ha => ⟨?declared, ?verified⟩, by decide,
    by decide⟩
  case declared => exact hpackage ▸ beans_package? hg hbean hfiles has a ha
  case verified => exact Bean.beans_verify hctx hnames hfiles has a ha

end Declared

end ProtoJava
