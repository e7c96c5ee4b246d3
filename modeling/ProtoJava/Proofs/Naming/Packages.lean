import ProtoJava.Naming.Allocate
import ProtoJava.Proofs.Naming.Allocated
import ProtoJava.Proofs.Naming.Spelling
import ProtoJava.Proofs.Text.Pieces

/-! # Packages

The packages that files ask for and are given are package names, whatever the files are called.
-/

namespace ProtoJava.Text

section Lower

variable {c : Char} {cs : List Char}

theorem isUpper_iff : c.isUpper ↔ 0x41 ≤ c.toNat ∧ c.toNat ≤ 0x5a := by
  delta Char.isUpper
  simp only [decide_eq_true_eq, ge_iff_le, UInt32.le_iff_toNat_le]
  rfl

/-- Nothing is a capital that a run maps to, since all of them map past the capitals. -/
theorem isUpper_mapRuns (c : Char) : ¬ (mapRuns lowerRuns c).isUpper := by
  have himage : ∀ run ∈ lowerRuns, 0x5a < run.image := by decide +kernel
  rw [mapRuns]
  cases hr : lowerRuns.findSome? (·.map? c.toNat) with
  | some n =>
    obtain ⟨run, hrun, hn⟩ := List.exists_of_findSome?_eq_some hr
    have hlt : 0x5a < n := by
      rw [CaseRun.map?] at hn
      split at hn
      · have := himage run hrun
        rw [← Option.some.inj hn]
        omega
      · simp at hn
    have hnat : (Char.ofNat n).toNat = n ∨ (Char.ofNat n).toNat = 0 := by
      by_cases hv : n.isValidChar
      · exact Or.inl (by rw [Char.ofNat, dif_pos hv]; rfl)
      · exact Or.inr (by rw [Char.ofNat, dif_neg hv]; rfl)
    dsimp only
    rw [isUpper_iff]
    omega
  | none =>
    dsimp only
    rw [isUpper_iff]
    rintro ⟨hlo, hhi⟩
    obtain ⟨run, rest, hrun, hfirst, hlast, hstep⟩ : ∃ run rest, lowerRuns = run :: rest ∧
        run.first = 0x41 ∧ run.last = 0x5a ∧ run.step = 1 :=
      ⟨_, _, rfl, rfl, rfl, rfl⟩
    rw [List.findSome?_eq_none_iff] at hr
    have := hr run (hrun ▸ List.mem_cons_self)
    simp [CaseRun.map?, hfirst, hlast, hstep, hlo, hhi, Nat.mod_one] at this

theorem isUpper_lowerChar {d : Char} (h : d ∈ lowerChar c) : ¬ d.isUpper := by
  unfold lowerChar at h
  split at h
  · simp only [List.mem_cons, List.not_mem_nil, or_false] at h
    rcases h with rfl | rfl <;> decide
  · rw [List.mem_singleton] at h
    exact h ▸ isUpper_mapRuns c

theorem isUpper_lowerFrom {d : Char} (before : List Char) (h : d ∈ lowerFrom before cs) :
    ¬ d.isUpper := by
  induction cs generalizing before with
  | nil => simp [lowerFrom] at h
  | cons c cs ih =>
    rw [lowerFrom, List.mem_append] at h
    rcases h with h | h
    · split at h
      · rw [List.mem_singleton] at h
        subst h
        split <;> decide
      · exact isUpper_lowerChar h
    · exact ih _ h

theorem lower_ne_nil (h : cs ≠ []) : lower cs ≠ [] := by
  obtain ⟨c, cs, rfl⟩ := List.exists_cons_of_ne_nil h
  rw [lower, lowerFrom, lowerChar]
  split_ifs <;> simp

end Lower

end ProtoJava.Text

namespace ProtoJava.Naming

open Text
open Schema (File Graph)

section Segments

variable {cs : List Char} {c : Char}

theorem isSegment_iff : isSegment cs ↔
    (∃ c ∈ cs.head?, isSegmentStart c) ∧ ∀ c ∈ cs, isSegmentPart c := by
  cases cs with
  | nil => simp [isSegment]
  | cons c cs =>
    simp only [isSegment, Bool.and_eq_true, List.all_eq_true, List.head?_cons, Option.mem_def,
      Option.some.injEq, exists_eq_left', List.forall_mem_cons]
    constructor
    · rintro ⟨h, hr⟩
      exact ⟨h, by simp [isSegmentPart, h], hr⟩
    · rintro ⟨h, -, hr⟩
      exact ⟨h, hr⟩

theorem isSegment_append {ds : List Char} (h : isSegment cs) (hd : ∀ d ∈ ds, isSegmentPart d) :
    isSegment (cs ++ ds) := by
  cases cs with
  | nil => exact absurd h (by decide)
  | cons c cs =>
    simp only [isSegment, List.cons_append, Bool.and_eq_true, List.all_eq_true] at h ⊢
    exact ⟨h.1, List.forall_mem_append.mpr ⟨h.2, hd⟩⟩

theorem isSegmentPart_of_isDigit (h : c.isDigit) : isSegmentPart c := by
  simp [isSegmentPart, h]

theorem isSegmentPart_segmentChar (h : ¬ c.isUpper) : isSegmentPart (segmentChar c) := by
  unfold segmentChar
  split
  · next hc =>
    delta Char.isAlphanum Char.isAlpha at hc
    simp only [Bool.or_eq_true, h, decide_eq_true_eq] at hc
    simp only [isSegmentPart, isSegmentStart, Bool.or_eq_true, decide_eq_true_eq]
    tauto
  · rfl

/-- Characters of segments, unless a digit comes first, are a segment. -/
theorem isSegment_of_parts (hne : cs ≠ []) (h : ∀ c ∈ cs, isSegmentPart c)
    (hd : ¬ cs.head?.any Char.isDigit) : isSegment cs := by
  cases cs with
  | nil => exact absurd rfl hne
  | cons c cs =>
    refine isSegment_iff.mpr ⟨⟨c, rfl, ?_⟩, h⟩
    have hc := h c List.mem_cons_self
    rw [isSegmentPart, Bool.or_eq_true] at hc
    exact hc.resolve_right (by simpa using hd)

theorem isSegment_numbered (s : String) (n : Nat) (h : isSegment s.toList) :
    isSegment (s ++ toString n).toList := by
  rw [String.toList_append]
  exact isSegment_append h fun c hc => isSegmentPart_of_isDigit (Text.isDigit_of_mem_nat hc)

/-- Whatever a segment is spelled after, unless it is empty, it is one. -/
theorem isSegment_segmentOf (h : cs ≠ []) : isSegment (segmentOf cs).toList := by
  have hne : (lower cs).map segmentChar ≠ [] := mt List.map_eq_nil_iff.mp (lower_ne_nil h)
  have hparts : ∀ c ∈ (lower cs).map segmentChar, isSegmentPart c := by
    intro c hc
    obtain ⟨d, hd, rfl⟩ := List.mem_map.mp hc
    exact isSegmentPart_segmentChar (isUpper_lowerFrom _ hd)
  dsimp only [segmentOf]
  generalize (lower cs).map segmentChar = spelled at hne hparts
  have hname : isSegment
      (if spelled.head?.any Char.isDigit then '_' :: spelled else spelled) := by
    split
    · exact isSegment_iff.mpr ⟨⟨'_', rfl, rfl⟩, List.forall_mem_cons.mpr ⟨rfl, hparts⟩⟩
    · next hd => exact isSegment_of_parts hne hparts hd
  generalize (if spelled.head?.any Char.isDigit then '_' :: spelled else spelled) = name at hname
  rw [← String.toList_ofList (l := name)] at hname
  split
  · exact Registry.reserving.answer_of_numbered isSegment_numbered hname
  · exact hname

end Segments

section Packages

variable {s t : String}

theorem isPackageName_iff {cs : List Char} :
    isPackageName cs ↔ ∀ p ∈ pieces '.' cs, isSegment p := by
  rw [isPackageName, List.all_eq_true]

theorem isPackageName_append {cs ds : List Char} (h : isPackageName cs) (h' : isPackageName ds) :
    isPackageName (cs ++ '.' :: ds) := by
  rw [isPackageName_iff] at *
  rw [pieces_append, List.forall_mem_append]
  exact ⟨h, h'⟩

theorem isPackageName_of_isSegment {cs : List Char} (h : isSegment cs) : isPackageName cs := by
  have hdot : '.' ∉ cs := fun hm => absurd ((isSegment_iff.mp h).2 _ hm) (by decide)
  rw [isPackageName_iff, pieces_of_not_mem hdot]
  exact List.forall_mem_singleton.mpr h

/-- A number after a package name makes it another one. -/
theorem isPackageName_numbered (s : String) (n : Nat) (h : isPackageName s.toList) :
    isPackageName (s ++ toString n).toList := by
  have hdigits : ∀ c ∈ (toString n).toList, isSegmentPart c :=
    fun c hc => isSegmentPart_of_isDigit (Text.isDigit_of_mem_nat hc)
  have hdot : '.' ∉ (toString n).toList := fun hm => absurd (hdigits _ hm) (by decide)
  obtain ⟨ps, p, hs, hn⟩ := pieces_append_of_not_mem hdot s.toList
  rw [isPackageName_iff, hs, List.forall_mem_append, List.forall_mem_singleton] at h
  rw [String.toList_append, isPackageName_iff, hn, List.forall_mem_append,
    List.forall_mem_singleton]
  exact ⟨h.1, isSegment_append h.2 hdigits⟩

theorem isPackageName_joined {segments : List String} (hne : segments ≠ [])
    (h : ∀ s ∈ segments, isSegment s.toList) : isPackageName (joined "." segments).toList := by
  fun_induction joined "." segments with
  | case1 => exact absurd rfl hne
  | case2 s => exact isPackageName_of_isSegment (h s List.mem_cons_self)
  | case3 s t r ih =>
    rw [List.forall_mem_cons] at h
    have := isPackageName_append (isPackageName_of_isSegment h.1) (ih (List.cons_ne_nil _ _) h.2)
    simpa using this

theorem isPackageName_packageSuffix (h : ¬ (packageSuffix s).isEmpty) :
    isPackageName (packageSuffix s).toList := by
  rw [packageSuffix] at h ⊢
  refine isPackageName_joined ?_ ?_
  · intro he
    rw [he] at h
    exact h rfl
  · intro x hx
    obtain ⟨p, hp, rfl⟩ := List.mem_map.mp hx
    exact isSegment_segmentOf (by simpa using (List.mem_filter.mp hp).2)

variable {o : Options}

theorem isPackageName_packageRequest (h : isPackageName o.beanPackage.toList) (f : File) :
    isPackageName (packageRequest o f).toList := by
  dsimp only [packageRequest]
  generalize (if f.package.isEmpty then f.baseName else f.package) = t
  split
  · exact h
  · next hs =>
    have := isPackageName_append h (isPackageName_packageSuffix hs)
    simpa using this

/-- Every package that is given to a file is a package name. -/
theorem isPackageName_of_granted (h : isPackageName o.beanPackage.toList) {g : Graph}
    {order : List Nat} {i : Nat} {package converter : String}
    (hm : (i, package, converter) ∈ grantedFiles o g order) : isPackageName package.toList := by
  have hpackage : package ∈ (grantedFiles o g order).map (·.2.1) :=
    List.mem_map.mpr ⟨_, hm, rfl⟩
  rw [grantedFiles_packages] at hpackage
  refine Registry.claimAll_of_numbered (P := fun s => isPackageName s.toList)
    isPackageName_numbered ?_ _ hpackage
  intro x hx
  obtain ⟨j, -, rfl⟩ := List.mem_map.mp hx
  exact isPackageName_packageRequest h _

theorem isPackageName_beanPackage (h : isPackageName o.beanPackage.toList) {g : Graph}
    (generate : List Nat) {i : Nat} (hi : i < g.files.length) :
    isPackageName ((allocate o g generate).file i).beanPackage.toList := by
  obtain ⟨package, converter, hm, hf⟩ := allocate_file o generate hi
  rw [hf]
  exact isPackageName_of_granted h hm

end Packages

end ProtoJava.Naming

namespace ProtoJava

variable {text : String} {o : Options}

theorem packageFor_eq_ok_iff {key : String} {package : List Char} {p : String} :
    packageFor key package = .ok p ↔ Naming.isPackageName package ∧ p.toList = package := by
  unfold packageFor
  split
  · next h =>
    rw [Except.ok.injEq, and_iff_right h, ← String.toList_inj, String.toList_ofList, eq_comm]
  · next h => exact iff_of_false nofun fun hp => h hp.1

/-- What reading options answers, by the values in force. -/
theorem Options.read_eq_ok_iff : Options.read text = .ok o ↔
    let items := optionItems text.toList
    let bean := normalPackage ((optionValue? items "vopkg").getD [])
    let given := normalPackage ((optionValue? items "cvtpkg").getD [])
    packageFor "vopkg" bean = .ok o.beanPackage ∧
      packageFor "cvtpkg" (if given = [] then bean ++ ".converter".toList else given) =
        .ok o.converterPackage ∧
      layoutFor (optionValue? items "layout") = .ok o.layout ∧
      (o.annotateCode ↔ optionValue? items "annotate_code" = some [] ∨
        optionValue? items "annotate_code" = some "true".toList) := by
  have hnil : ∀ p, packageFor "vopkg" [] ≠ .ok p := fun p h =>
    absurd (packageFor_eq_ok_iff.mp h).1 (by decide)
  unfold Options.read
  dsimp only
  split
  · next hbean =>
    rw [hbean]
    exact iff_of_false nofun fun h => hnil _ h.1
  · obtain ⟨bean, converter, layout, annotate⟩ := o
    simp only [bind_eq_ok_iff, pure_eq_ok_iff, Options.mk.injEq]
    constructor
    · rintro ⟨_, hbean, _, hconverter, _, hlayout, rfl, rfl, rfl, rfl⟩
      exact ⟨hbean, hconverter, hlayout, decide_eq_true_iff⟩
    · rintro ⟨hbean, hconverter, hlayout, hannotate⟩
      refine ⟨_, hbean, _, hconverter, _, hlayout, rfl, rfl, rfl, ?_⟩
      rw [Bool.eq_iff_iff, decide_eq_true_iff, hannotate]

/-- The packages of options that have been read are package names. -/
theorem Options.read_packages (h : Options.read text = .ok o) :
    Naming.isPackageName o.beanPackage.toList ∧ Naming.isPackageName o.converterPackage.toList := by
  obtain ⟨hbean, hconverter, -⟩ := Options.read_eq_ok_iff.mp h
  rw [packageFor_eq_ok_iff] at hbean hconverter
  exact ⟨hbean.2 ▸ hbean.1, hconverter.2 ▸ hconverter.1⟩

end ProtoJava
