import Mathlib.Data.List.Nodup
import ProtoJava.Java.Imports
import ProtoJava.Proofs.Lookup
import ProtoJava.Proofs.Text.Pieces

/-! # Soundness of imports

What a class is called keeps meaning that class, whatever is called later: an import binds a name
that no class of the package is called by, and names that have been used are never imported.
-/

namespace ProtoJava.Java

/-- The import of a class, by its package and its simple name. -/
def importLine (package name : String) : String :=
  "import " ++ (package ++ "." ++ name) ++ ";"

/-- A package and a simple name are read off the name of a class. -/
theorem qualified_injective {p p' n n' : String} (hn : '.' ∉ n.toList) (hn' : '.' ∉ n'.toList)
    (h : p ++ "." ++ n = p' ++ "." ++ n') : p = p' ∧ n = n' := by
  have hl := congrArg String.toList h
  simp only [String.toList_append, List.append_assoc] at hl
  obtain ⟨hp, hx⟩ := Text.append_sep_injective hn hn' hl
  exact ⟨String.toList_inj.mp hp, String.toList_inj.mp hx⟩

/-- What a class may be called: its name in its package, alone or after the package. -/
inductive ClassName.IsCalled (c : ClassName) : String → Prop
  | relative : c.IsCalled (Text.joined "." c.path)
  | qualified (h : c.package ≠ "") : c.IsCalled (c.package ++ "." ++ Text.joined "." c.path)

theorem eraseReps_of_nodup {l : List String} (h : l.Nodup) : l.eraseReps = l := by
  suffices hloop : ∀ (a : String) (l acc : List String), (a :: l).Nodup →
      List.eraseRepsBy.loop (· == ·) a l acc = acc.reverse ++ a :: l by
    cases l with
    | nil => rfl
    | cons a l => exact hloop a l [] h
  intro a l acc h
  induction l generalizing a acc with
  | nil => simp [List.eraseRepsBy.loop]
  | cons b l ih =>
    have hab : (a == b) = false := by
      rw [beq_eq_false_iff_ne]
      rintro rfl
      simp at h
    simp [List.eraseRepsBy.loop, hab, ih b (a :: acc) (List.nodup_cons.mp h).2]

theorem mem_eraseReps {x : String} {l : List String} : x ∈ l.eraseReps ↔ x ∈ l := by
  suffices hloop : ∀ (a : String) (l acc : List String),
      x ∈ List.eraseRepsBy.loop (· == ·) a l acc ↔ x ∈ acc ∨ x = a ∨ x ∈ l by
    cases l with
    | nil => rfl
    | cons a l =>
      rw [List.mem_cons]
      exact (hloop a l []).trans (by simp)
  intro a l acc
  induction l generalizing a acc with
  | nil => simp [List.eraseRepsBy.loop, or_comm]
  | cons b l ih =>
    rw [List.eraseRepsBy.loop]
    split
    · next hab =>
      rw [ih, beq_iff_eq.mp hab, List.mem_cons]
      tauto
    · rw [ih, List.mem_cons, List.mem_cons]
      tauto

namespace Imports

theorem mem_lines {i : Imports} {line : String} :
    line ∈ i.lines ↔ ∃ e ∈ i.imported, line = "import " ++ e.2 ++ ";" := by
  rw [lines, List.mem_map]
  constructor
  · rintro ⟨full, hf, rfl⟩
    rw [mem_eraseReps, List.mem_mergeSort, List.mem_map] at hf
    obtain ⟨e, he, rfl⟩ := hf
    exact ⟨e, he, rfl⟩
  · rintro ⟨e, he, rfl⟩
    exact ⟨e.2, mem_eraseReps.mpr (List.mem_mergeSort.mpr (List.mem_map_of_mem he)), rfl⟩

/-- The class that an entry of a simple name stands for. -/
def entry (c : ClassName) : String × String :=
  (c.outermost, c.package ++ "." ++ c.outermost)

/-- An import binds a name that no class of the package is called by; only library classes bind
names that are reserved. -/
structure Sound (i : Imports) : Prop where
  names : (i.imported.map (·.1)).Nodup
  classes : ∀ e ∈ i.imported, ∃ p, e.2 = p ++ "." ++ e.1 ∧ '.' ∉ e.1.toList ∧ p ≠ i.package ∧
    e.1 ∉ i.own ∧ (Naming.isReserved e.1 → p ∈ libraryPackages)

/-- The later imports of a source file that has had the earlier ones. -/
structure Extends (i j : Imports) : Prop where
  package : j.package = i.package
  nested : j.nested = i.nested
  own : i.own ⊆ j.own
  imported : i.imported ⊆ j.imported

theorem Extends.refl (i : Imports) : i.Extends i :=
  ⟨rfl, rfl, List.Subset.refl _, List.Subset.refl _⟩

theorem Extends.trans {i j k : Imports} (h : i.Extends j) (h' : j.Extends k) : i.Extends k :=
  ⟨h'.package.trans h.package, h'.nested.trans h.nested, List.Subset.trans h.own h'.own,
    List.Subset.trans h.imported h'.imported⟩

/-- A class is called by its qualified name, or by a name that is its own. -/
def Named (i : Imports) (c : ClassName) (name : String) : Prop :=
  name = c.qualified ∨ name = c.relative ∧ c.outermost ∉ i.nested ∧
    (c.package = i.package ∧ c.outermost ∈ i.own ∨
      c.package ≠ i.package ∧ entry c ∈ i.imported)

theorem Named.mono {i j : Imports} {c : ClassName} {name : String} (h : i.Named c name)
    (he : i.Extends j) : j.Named c name := by
  rcases h with h | ⟨h, hn, hm⟩
  · exact Or.inl h
  · refine Or.inr ⟨h, he.nested ▸ hn, ?_⟩
    rcases hm with ⟨hp, hm⟩ | ⟨hp, hm⟩
    · exact Or.inl ⟨he.package ▸ hp, he.own hm⟩
    · exact Or.inr ⟨he.package ▸ hp, he.imported hm⟩

/-- Nothing nested hides the name of a class, and it is not reserved but for library classes. -/
structure Free (i : Imports) (c : ClassName) : Prop where
  visible : c.outermost ∉ i.nested
  library : Naming.isReserved c.outermost → c.package ∈ libraryPackages

/-- The name of a class is hidden or reserved, or means another class. -/
inductive Taken (i : Imports) (c : ClassName) : Prop
  | nested (h : c.outermost ∈ i.nested)
  | reserved (hr : Naming.isReserved c.outermost) (hp : c.package ∉ libraryPackages)
  | imported {full : String} (hl : i.imported.lookup c.outermost = some full)
      (hf : full ≠ (entry c).2)
  | own (hp : c.package ≠ i.package) (ho : c.outermost ∈ i.own)

/-- What a class can be called, with the imports afterwards. -/
inductive Answers (i : Imports) (c : ClassName) : String × Imports → Prop
  | qualified (h : i.Taken c) : Answers i c (c.qualified, i)
  | own (h : i.Free c) (hp : c.package = i.package)
      (hl : ∀ full, i.imported.lookup c.outermost = some full → full = (entry c).2) :
      Answers i c (c.relative, i.declare c.outermost)
  /-- Classes of `java.lang` need no import. -/
  | lang (h : i.Free c) (hp : c.package = "java.lang") : Answers i c (c.relative, i)
  | known (h : i.Free c) (hp : c.package ≠ i.package)
      (hl : i.imported.lookup c.outermost = some (entry c).2) : Answers i c (c.relative, i)
  | imported (h : i.Free c) (hp : c.package ≠ i.package)
      (hl : i.imported.lookup c.outermost = none) (ho : c.outermost ∉ i.own) :
      Answers i c (c.relative, { i with imported := entry c :: i.imported })

section Reference

variable {i : Imports} {c : ClassName}

theorem reference_answers (i : Imports) (c : ClassName) : i.Answers c (i.reference c) := by
  rw [reference]
  split
  · next hg =>
    simp only [Bool.or_eq_true, Bool.and_eq_true, Bool.not_eq_true', List.contains_iff_mem] at hg
    rcases hg with hn | ⟨hr, hp⟩
    · exact .qualified (.nested hn)
    · exact .qualified (.reserved hr (by simpa using hp))
  · next hg =>
    simp only [Bool.or_eq_true, Bool.and_eq_true, Bool.not_eq_true', List.contains_iff_mem,
      not_or, not_and, Bool.not_eq_false] at hg
    have hfree : i.Free c := ⟨hg.1, fun hr => by simpa using hg.2 hr⟩
    split
    · next hp =>
      rw [ownClass]
      split
      · next hl =>
        obtain ⟨full, hl, hf⟩ := (Option.any_eq_true _ _).mp hl
        exact .qualified (.imported hl (by simpa [entry] using hf))
      · next hl => exact .own hfree hp fun full hf => by simpa [hf, entry] using hl
    · next hp =>
      split
      · next hj => exact .lang hfree hj.1
      · rw [importClass]
        split
        · next full hl =>
          split
          · next he => exact .known hfree hp (hl.trans (congrArg some he))
          · next he => exact .qualified (.imported hl he)
        · next hl =>
          split
          · next ho => exact .qualified (.own hp (by simpa using ho))
          · next ho => exact .imported hfree hp hl (by simpa using ho)

/-- Whatever has been imported, a class is called by its name in its package or its full name. -/
theorem reference_isCalled (i : Imports) (c : ClassName) : c.IsCalled (i.reference c).1 := by
  have hrelative : c.IsCalled c.relative := .relative
  have h := reference_answers i c
  generalize i.reference c = answer at h ⊢
  cases h with
  | qualified =>
    show c.IsCalled c.qualified
    rw [ClassName.qualified]
    split
    · exact hrelative
    · next hp => exact .qualified (by simpa using hp)
  | own | lang | known | imported => exact hrelative

theorem reference_extends (hl : c.package ≠ "java.lang") : i.Extends (i.reference c).2 := by
  have h := reference_answers i c
  generalize i.reference c = answer at h ⊢
  cases h with
  | qualified => exact .refl i
  | own => exact ⟨rfl, rfl, List.subset_cons_self _ _, List.Subset.refl _⟩
  | lang h hp => exact absurd hp hl
  | known => exact .refl i
  | imported => exact ⟨rfl, rfl, List.Subset.refl _, List.subset_cons_self _ _⟩

theorem reference_named (hl : c.package ≠ "java.lang") :
    (i.reference c).2.Named c (i.reference c).1 := by
  have h := reference_answers i c
  generalize i.reference c = answer at h ⊢
  cases h with
  | qualified => exact Or.inl rfl
  | own h hp => exact Or.inr ⟨rfl, h.visible, Or.inl ⟨hp, List.mem_cons_self⟩⟩
  | lang h hp => exact absurd hp hl
  | known h hp hm => exact Or.inr ⟨rfl, h.visible, Or.inr ⟨hp, mem_of_lookup hm⟩⟩
  | imported h hp => exact Or.inr ⟨rfl, h.visible, Or.inr ⟨hp, List.mem_cons_self⟩⟩

theorem reference_sound (hs : i.Sound) (hl : c.package ≠ "java.lang")
    (hd : '.' ∉ c.outermost.toList) : (i.reference c).2.Sound := by
  have h := reference_answers i c
  generalize i.reference c = answer at h ⊢
  cases h with
  | qualified => exact hs
  | own h hp hknown =>
    refine ⟨hs.names, fun e he => ?_⟩
    obtain ⟨p, hfull, hdot, hne, hown, hlib⟩ := hs.classes e he
    refine ⟨p, hfull, hdot, hne, ?_, hlib⟩
    -- An import of the same name would be of another package, and so have been answered in full.
    intro hm
    rcases List.mem_cons.mp hm with heq | hm
    · have := hknown e.2 (heq ▸ lookup_of_mem hs.names he)
      rw [hfull] at this
      exact hne ((qualified_injective hdot hd this).1.trans hp)
    · exact hown hm
  | lang h hp => exact absurd hp hl
  | known => exact hs
  | imported h hp hnone ho =>
    refine ⟨List.nodup_cons.mpr ⟨not_mem_of_lookup hnone, hs.names⟩, fun e he => ?_⟩
    rcases List.mem_cons.mp he with rfl | he
    · exact ⟨c.package, rfl, hd, hp, ho, h.library⟩
    · exact hs.classes e he

end Reference

/-- A note of what a simple name means in the source file. -/
inductive Declaration
  | own (name : String)
  | nested (name : String)
deriving Repr, DecidableEq

def note (i : Imports) : Declaration → Imports
  | .own name => i.declare name
  | .nested name => i.declareNested name

/-- The imports of a source file in which nothing but declarations has been noted. -/
def declaring (package : String) (ds : List Declaration) : Imports :=
  ds.foldl note { package }

/-- What to call classes, one after the other. -/
def referenceAll (i : Imports) : List ClassName → List String × Imports
  | [] => ([], i)
  | c :: cs =>
    let (name, i) := i.reference c
    let (names, i) := i.referenceAll cs
    (name :: names, i)

theorem foldl_note (ds : List Declaration) (i : Imports) :
    (ds.foldl note i).package = i.package ∧ (ds.foldl note i).imported = i.imported ∧
      (∀ n, n ∈ (ds.foldl note i).own ↔ .own n ∈ ds ∨ n ∈ i.own) ∧
      ∀ n, n ∈ (ds.foldl note i).nested ↔ .nested n ∈ ds ∨ n ∈ i.nested := by
  induction ds generalizing i with
  | nil => simp
  | cons d ds ih =>
    obtain ⟨hp, hi, ho, hn⟩ := ih (i.note d)
    cases d <;>
      simp_all [note, declare, declareNested, or_assoc, or_left_comm, or_comm]

theorem declaring_sound (package : String) (ds : List Declaration) :
    (declaring package ds).Sound := by
  have hi : (declaring package ds).imported = [] := (foldl_note ds { package }).2.1
  constructor <;> simp [hi]

section Run

variable {i : Imports} {cs : List ClassName}

theorem referenceAll_cons {c : ClassName} : i.referenceAll (c :: cs) =
    ((i.reference c).1 :: ((i.reference c).2.referenceAll cs).1,
      ((i.reference c).2.referenceAll cs).2) := rfl

theorem referenceAll_extends (hl : ∀ c ∈ cs, c.package ≠ "java.lang") :
    i.Extends (i.referenceAll cs).2 := by
  induction cs generalizing i with
  | nil => exact .refl i
  | cons c cs ih =>
    rw [referenceAll_cons]
    exact (reference_extends (hl c List.mem_cons_self)).trans
      (ih fun c hc => hl c (List.mem_cons_of_mem _ hc))

theorem referenceAll_sound (h : i.Sound) (hl : ∀ c ∈ cs, c.package ≠ "java.lang")
    (hd : ∀ c ∈ cs, '.' ∉ c.outermost.toList) : (i.referenceAll cs).2.Sound := by
  induction cs generalizing i with
  | nil => exact h
  | cons c cs ih =>
    rw [referenceAll_cons]
    exact ih (reference_sound h (hl c List.mem_cons_self) (hd c List.mem_cons_self))
      (fun c hc => hl c (List.mem_cons_of_mem _ hc)) fun c hc => hd c (List.mem_cons_of_mem _ hc)

/-- In the end every class is named as it was when it was called. -/
theorem referenceAll_named (hl : ∀ c ∈ cs, c.package ≠ "java.lang") :
    List.Forall₂ (i.referenceAll cs).2.Named cs (i.referenceAll cs).1 := by
  induction cs generalizing i with
  | nil => exact .nil
  | cons c cs ih =>
    have hl' : ∀ c ∈ cs, c.package ≠ "java.lang" := fun c hc => hl c (List.mem_cons_of_mem _ hc)
    rw [referenceAll_cons]
    exact .cons ((reference_named (hl c List.mem_cons_self)).mono (referenceAll_extends hl'))
      (ih hl')

end Run

section Lines

variable {i : Imports}

/-- The names of imported classes in strictly ascending order. -/
theorem lines_eq (h : i.Sound) : ∃ classes : List String,
    i.lines = classes.map (fun full => "import " ++ full ++ ";") ∧
      classes.Pairwise (· < ·) ∧ ∀ full, full ∈ classes ↔ ∃ name, (name, full) ∈ i.imported := by
  let classes := (i.imported.map (·.2)).mergeSort fun a b => decide (a ≤ b)
  have hmem : ∀ full, full ∈ classes ↔ ∃ name, (name, full) ∈ i.imported := by
    simp [classes]
  have hle : classes.Pairwise (· ≤ ·) := by
    have hp : classes.Pairwise fun a b => decide (a ≤ b) := List.pairwise_mergeSort
      (fun a b c => by simpa using String.le_trans)
      (fun a b => by simpa using String.le_total a b) _
    simpa using hp
  have hnodup : classes.Nodup := by
    refine (List.mergeSort_perm _ _).nodup_iff.mpr ?_
    refine List.Nodup.map_on (fun e he e' he' heq => ?_) h.names.of_map
    obtain ⟨p, hp, hdot, -⟩ := h.classes e he
    obtain ⟨p', hp', hdot', -⟩ := h.classes e' he'
    rw [hp, hp'] at heq
    exact Prod.ext (qualified_injective hdot hdot' heq).2 (by rw [hp, hp', heq])
  refine ⟨classes, by rw [lines, eraseReps_of_nodup hnodup], ?_, hmem⟩
  refine (hle.and hnodup).imp fun ⟨hle, hne⟩ => String.not_le.mp fun hge => ?_
  exact hne (String.le_antisymm hle hge)

theorem mem_lines_iff (h : i.Sound) {p name : String} (hd : '.' ∉ name.toList) :
    importLine p name ∈ i.lines ↔ (name, p ++ "." ++ name) ∈ i.imported := by
  obtain ⟨classes, hl, -, hm⟩ := lines_eq h
  rw [hl, List.mem_map]
  constructor
  · rintro ⟨full, hf, he⟩
    obtain rfl := (String.append_right_inj _).mp ((String.append_left_inj _).mp he)
    obtain ⟨name', hn⟩ := (hm _).mp hf
    obtain ⟨p', hp, hdot, -⟩ := h.classes _ hn
    exact (qualified_injective hd hdot hp).2 ▸ hn
  · exact fun hi => ⟨_, (hm _).mpr ⟨name, hi⟩, rfl⟩

/-- A class is still what its name means in the source file with its imports. -/
def Means (i : Imports) (c : ClassName) (name : String) : Prop :=
  name = c.qualified ∨ name = c.relative ∧ c.outermost ∉ i.nested ∧
    (c.package = i.package ∧ c.outermost ∈ i.own ∧ (∀ p, importLine p c.outermost ∉ i.lines) ∨
      c.package ≠ i.package ∧ importLine c.package c.outermost ∈ i.lines ∧ c.outermost ∉ i.own)

theorem Named.means (h : i.Sound) {c : ClassName} {name : String} (hn : i.Named c name)
    (hd : '.' ∉ c.outermost.toList) : i.Means c name := by
  rcases hn with hn | ⟨hn, hnested, ⟨hp, ho⟩ | ⟨hp, hi⟩⟩
  · exact Or.inl hn
  · refine Or.inr ⟨hn, hnested, Or.inl ⟨hp, ho, fun p hl => ?_⟩⟩
    obtain ⟨-, -, -, -, hno, -⟩ := h.classes _ ((mem_lines_iff h hd).mp hl)
    exact hno ho
  · obtain ⟨-, -, -, -, hno, -⟩ := h.classes _ hi
    exact Or.inr ⟨hn, hnested, Or.inr ⟨hp, (mem_lines_iff h hd).mpr hi, hno⟩⟩

/-- What names and imports mean at the end of a source file. -/
structure Meaningful (i : Imports) (package : String) (ds : List Declaration)
    (cs : List ClassName) (names : List String) : Prop where
  package : i.package = package
  own : ∀ n, .own n ∈ ds → n ∈ i.own
  nested : ∀ n, n ∈ i.nested ↔ .nested n ∈ ds
  names : List.Forall₂ i.Means cs names
  /-- Import statements are in strictly ascending order of the classes they import. -/
  sorted : ∃ classes : List String, i.lines = classes.map (fun full => "import " ++ full ++ ";") ∧
    classes.Pairwise (· < ·)
  lines : ∀ l ∈ i.lines, ∃ p n, '.' ∉ n.toList ∧ l = importLine p n
  reserved : ∀ p n, '.' ∉ n.toList → importLine p n ∈ i.lines → Naming.isReserved n →
    p ∈ libraryPackages
  single : ∀ p p' n, '.' ∉ n.toList → importLine p n ∈ i.lines → importLine p' n ∈ i.lines →
    p = p'

/-- However classes are called after the declarations, names and imports are meaningful. -/
theorem referenceAll_meaningful (package : String) (ds : List Declaration) (cs : List ClassName)
    (hl : ∀ c ∈ cs, c.package ≠ "java.lang") (hd : ∀ c ∈ cs, '.' ∉ c.outermost.toList) :
    let r := (declaring package ds).referenceAll cs
    r.2.Meaningful package ds cs r.1 := by
  intro r
  have hs : r.2.Sound := referenceAll_sound (declaring_sound package ds) hl hd
  have he : (declaring package ds).Extends r.2 := referenceAll_extends hl
  obtain ⟨hp, -, ho, hn⟩ := foldl_note ds { package }
  constructor
  case package => exact he.package.trans hp
  case own => exact fun n h => he.own ((ho n).mpr (Or.inl h))
  case nested =>
    intro n
    rw [he.nested, declaring, hn n]
    simp
  case names =>
    refine List.forall₂_iff_get.mpr ⟨(referenceAll_named hl).length_eq, fun k hk hk' => ?_⟩
    exact ((referenceAll_named hl).get hk hk').means hs (hd _ (List.get_mem ..))
  case sorted =>
    obtain ⟨classes, h, hlt, -⟩ := lines_eq hs
    exact ⟨classes, h, hlt⟩
  case lines =>
    intro l h
    obtain ⟨classes, hc, -, hm⟩ := lines_eq hs
    obtain ⟨full, hf, rfl⟩ := List.mem_map.mp (hc ▸ h)
    obtain ⟨name, hi⟩ := (hm full).mp hf
    obtain ⟨p, hp, hdot, -⟩ := hs.classes _ hi
    exact ⟨p, name, hdot, by rw [importLine, ← hp]⟩
  case reserved =>
    intro p n hdot h hr
    obtain ⟨p', hp', hdot', -, -, hlib⟩ := hs.classes _ ((mem_lines_iff hs hdot).mp h)
    rw [(qualified_injective hdot hdot' hp').1]
    exact hlib hr
  case single =>
    intro p p' n hdot h h'
    have he := List.inj_on_of_nodup_map hs.names ((mem_lines_iff hs hdot).mp h)
      ((mem_lines_iff hs hdot).mp h') rfl
    exact (qualified_injective hdot hdot (congrArg Prod.snd he)).1

theorem referenceAll_meaningful_shadowed :
    let r := (declaring "a" [.own "Bar", .nested "Foo"]).referenceAll
      [⟨"b", ["Baz"]⟩, ⟨"a", ["Baz"]⟩, ⟨"a", ["Foo"]⟩, ⟨"java.util", ["List"]⟩]
    r.1 = ["Baz", "a.Baz", "a.Foo", "List"] ∧
      r.2.Meaningful "a" [.own "Bar", .nested "Foo"]
        [⟨"b", ["Baz"]⟩, ⟨"a", ["Baz"]⟩, ⟨"a", ["Foo"]⟩, ⟨"java.util", ["List"]⟩] r.1 :=
  ⟨by decide, referenceAll_meaningful _ _ _ (by decide) (by decide)⟩

/-- The statements themselves need not be in ascending order: a class stands before those whose
names go on after its own, but the end of a statement is above a digit. -/
theorem lines_not_ascending :
    let r := (declaring "p" []).referenceAll [⟨"a", ["B"]⟩, ⟨"a", ["B1"]⟩]
    (∀ c ∈ ([⟨"a", ["B"]⟩, ⟨"a", ["B1"]⟩] : List ClassName),
      c.package ≠ "java.lang" ∧ '.' ∉ c.outermost.toList) ∧
    ¬ r.2.lines.Pairwise (· < ·) := by
  intro r
  have hi : r.2.imported.map (·.2) = ["a.B1", "a.B"] := by decide
  have hs : ["a.B1", "a.B"].mergeSort (fun a b => decide (a ≤ b)) = ["a.B", "a.B1"] := by
    simp [List.mergeSort, List.MergeSort.Internal.splitInTwo]
  rw [lines, hi, hs]
  decide

end Lines

end Imports

end ProtoJava.Java
