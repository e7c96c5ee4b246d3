import Mathlib.Logic.Relation
import ProtoJava.Proofs.Naming.PackageSuffixes
import ProtoJava.Proofs.Text.Trimming

/-! # Options

A text of options says what it does by the last item of each key. So items of other keys, items that
a later one overrides and the order of different keys make no difference, and options that are
written out are read again.
-/

namespace ProtoJava

open Text
open Naming (isSegment isPackageName)

/-- Keys with their values, in the order of a text. -/
abbrev Items := List (List Char × List Char)

/-- A part of a text is read as what stands around its first equals sign, or as a key without a
value, where white space at the ends does not count. -/
inductive ReadAsItem : List Char → List Char × List Char → Prop
  | valued {left right key value : List Char} : '=' ∉ left → Strips isBlank left key →
      Strips isBlank right value → ReadAsItem (left ++ '=' :: right) (key, value)
  | bare {part key : List Char} : '=' ∉ part → Strips isBlank part key → ReadAsItem part (key, [])

/-- The items of a text are what its parts between commas are read as, empty ones apart. -/
def HasItems (text : String) (items : Items) : Prop :=
  ∃ parts : List String, parts ≠ [] ∧ (∀ part ∈ parts, ',' ∉ part.toList) ∧
    text = joined "," parts ∧
    List.Forall₂ (fun part item => ReadAsItem part.toList item) (parts.filter (· ≠ "")) items

/-- The last item of a key has this value. -/
def InForce (items : Items) (key : String) (value : List Char) : Prop :=
  ∃ before after, items = before ++ (key.toList, value) :: after ∧
    ∀ item ∈ after, item.1 ≠ key.toList

def Absent (items : Items) (key : String) : Prop :=
  ∀ item ∈ items, item.1 ≠ key.toList

/-- A value is understood as a package: in lower case, without dots at its ends. -/
def GivesPackage (value : List Char) (package : String) : Prop :=
  Strips (· = '.') (lower value) package.toList

/-- One or more segments with dots between them. -/
def IsDottedPackage (package : String) : Prop :=
  ∃ segments : List String, segments ≠ [] ∧ (∀ s ∈ segments, isSegment s.toList) ∧
    package = joined "." segments

/-- Items that options can be read from. -/
structure Acceptable (items : Items) : Prop where
  bean : ∃ value package, InForce items "vopkg" value ∧ GivesPackage value package ∧
    IsDottedPackage package
  converter : ∀ value package, InForce items "cvtpkg" value → GivesPackage value package →
    package = "" ∨ IsDottedPackage package
  layout : ∀ value, InForce items "layout" value → value = "type".toList ∨ value = "file".toList

/-- Options are those that items say. -/
structure Options.MeantBy (o : Options) (items : Items) : Prop where
  bean : ∃ value, InForce items "vopkg" value ∧ GivesPackage value o.beanPackage
  converter : o.converterPackage ≠ "" ∧
      (∃ value, InForce items "cvtpkg" value ∧ GivesPackage value o.converterPackage) ∨
    (∀ value, InForce items "cvtpkg" value → GivesPackage value "") ∧
      o.converterPackage = o.beanPackage ++ ".converter"
  layout : o.layout = .file ↔ InForce items "layout" "file".toList
  annotateCode : o.annotateCode ↔
    InForce items "annotate_code" [] ∨ InForce items "annotate_code" "true".toList

section Items

variable {part : List Char} {item : List Char × List Char} {items : Items} {key : String}
  {value : List Char} {text : String} {parts : List String}

theorem readAsItem_optionItem (part : List Char) : ReadAsItem part (optionItem part) := by
  by_cases h : '=' ∈ part
  · obtain ⟨left, right, rfl, hleft⟩ := List.eq_append_cons_of_mem h
    rw [optionItem, cut?_append hleft]
    exact .valued hleft (strips_dropEndsWhile ..) (strips_dropEndsWhile ..)
  · rw [optionItem, cut?_of_not_mem h]
    exact .bare h (strips_dropEndsWhile ..)

theorem readAsItem_iff : ReadAsItem part item ↔ item = optionItem part := by
  constructor
  · rintro (⟨hleft, hkey, hvalue⟩ | ⟨hpart, hkey⟩)
    · rw [optionItem, cut?_append hleft, strips_iff.mp hkey, strips_iff.mp hvalue]
      rfl
    · rw [optionItem, cut?_of_not_mem hpart, strips_iff.mp hkey]
      rfl
  · rintro rfl
    exact readAsItem_optionItem part

/-- The items that parts of a text are read as. -/
def itemsOf (parts : List String) : Items :=
  (parts.filter (· ≠ "")).map fun part => optionItem part.toList

theorem optionItems_joined (h : ∀ part ∈ parts, ',' ∉ part.toList) :
    optionItems (joined "," parts).toList = itemsOf parts := by
  by_cases hne : parts = []
  · subst hne
    rfl
  · have hpieces : pieces ',' (joined "," parts).toList = parts.map String.toList :=
      pieces_joined hne h
    have hfilter : (parts.map String.toList).filter (· ≠ []) =
        (parts.filter (· ≠ "")).map String.toList := by
      rw [List.filter_map]
      refine congrArg _ (List.filter_congr fun s _ => ?_)
      simp
    rw [optionItems, hpieces, hfilter, List.map_map]
    rfl

theorem exists_parts (text : String) : ∃ parts : List String, parts ≠ [] ∧
    (∀ part ∈ parts, ',' ∉ part.toList) ∧ text = joined "," parts := by
  refine ⟨(pieces ',' text.toList).map String.ofList, ?_, ?_, ?_⟩
  · exact mt List.map_eq_nil_iff.mp (pieces_ne_nil ',' text.toList)
  · intro part h
    obtain ⟨p, hp, rfl⟩ := List.mem_map.mp h
    rw [String.toList_ofList]
    exact not_mem_of_mem_pieces hp
  · exact String.ofList_toList.symm.trans (joined_pieces ',' text.toList).symm

theorem forall₂_readAsItem_iff {parts : List String} :
    List.Forall₂ (fun part item => ReadAsItem part.toList item) parts items ↔
      items = parts.map fun part => optionItem part.toList := by
  simp only [readAsItem_iff]
  rw [eq_comm, ← List.forall₂_eq_eq_eq, List.forall₂_map_left_iff]
  simp only [eq_comm]

/-- Every text has its items. -/
theorem hasItems_iff : HasItems text items ↔ items = optionItems text.toList := by
  constructor
  · rintro ⟨parts, -, hparts, rfl, h⟩
    rw [optionItems_joined hparts, forall₂_readAsItem_iff.mp h, itemsOf]
  · rintro rfl
    obtain ⟨parts, hne, hparts, rfl⟩ := exists_parts text
    refine ⟨parts, hne, hparts, rfl, forall₂_readAsItem_iff.mpr ?_⟩
    rw [optionItems_joined hparts, itemsOf]

theorem optionValue?_eq_some_iff : optionValue? items key = some value ↔
    InForce items key value := by
  rw [optionValue?, List.lookup_eq_some_iff]
  constructor
  · rintro ⟨after, before, hitems, hafter⟩
    refine ⟨before.reverse, after.reverse, ?_, fun item h => ?_⟩
    · rw [← List.reverse_reverse items, hitems, List.reverse_append, List.reverse_cons,
        List.append_assoc, List.singleton_append]
    · exact Ne.symm (bne_iff_ne.mp (hafter item (List.mem_reverse.mp h)))
  · rintro ⟨before, after, rfl, hafter⟩
    refine ⟨after.reverse, before.reverse, by simp, fun item h => ?_⟩
    exact bne_iff_ne.mpr (Ne.symm (hafter item (List.mem_reverse.mp h)))

theorem inForce_unique {value' : List Char} (h : InForce items key value)
    (h' : InForce items key value') : value = value' := by
  rw [← optionValue?_eq_some_iff] at h h'
  exact Option.some.inj (h.symm.trans h')

theorem optionValue?_eq_none_iff : optionValue? items key = none ↔ Absent items key := by
  rw [optionValue?, List.lookup_eq_none_iff]
  simp only [List.mem_reverse, bne_iff_ne, Absent, ne_comm]

end Items

section Reading

variable {text : String} {o : Options} {items : Items} {key : String} {value : List Char}

/-- Options that cannot be read are refused for what is wrong with them. -/
theorem Options.exists_fault {e : Error} (h : Options.read text = .error e) :
    ∃ fault, e = .options fault := by
  have hpackage : ∀ {key package}, packageFor key package = .error e →
      ∃ fault, e = .options fault := by
    intro key package h
    unfold packageFor at h
    split at h
    · cases h
    · exact ⟨_, (Except.error.inj h).symm⟩
  have hlayout : ∀ {value}, layoutFor value = .error e → ∃ fault, e = .options fault := by
    intro value h
    unfold layoutFor at h
    split at h
    · cases h
    · split_ifs at h
      exact ⟨_, (Except.error.inj h).symm⟩
  unfold Options.read at h
  dsimp only at h
  split at h
  · exact ⟨_, (Except.error.inj h).symm⟩
  · simp only [bind_eq_error_iff] at h
    obtain h | ⟨_, -, h | ⟨_, -, h | ⟨_, -, h⟩⟩⟩ := h
    · exact hpackage h
    · exact hpackage h
    · exact hlayout h
    · cases h

theorem givesPackage_iff {package : String} :
    GivesPackage value package ↔ package.toList = normalPackage value :=
  strips_iff

theorem isDottedPackage_iff {package : String} :
    IsDottedPackage package ↔ isPackageName package.toList := by
  constructor
  · rintro ⟨segments, hne, hsegments, rfl⟩
    exact Naming.isPackageName_joined hne hsegments
  · intro h
    refine ⟨(pieces '.' package.toList).map String.ofList, ?_, ?_, ?_⟩
    · exact mt List.map_eq_nil_iff.mp (pieces_ne_nil '.' package.toList)
    · intro s hs
      obtain ⟨p, hp, rfl⟩ := List.mem_map.mp hs
      rw [String.toList_ofList]
      exact Naming.isPackageName_iff.mp h p hp
    · exact String.ofList_toList.symm.trans (joined_pieces '.' package.toList).symm

/-- A package is accepted for a key if its value gives one. -/
theorem packageFor_value_iff {package : String} :
    packageFor key (normalPackage ((optionValue? items key).getD [])) = .ok package ↔
      IsDottedPackage package ∧
        ∃ value, InForce items key value ∧ GivesPackage value package := by
  rw [packageFor_eq_ok_iff]
  simp only [isDottedPackage_iff, givesPackage_iff, ← optionValue?_eq_some_iff]
  cases h : optionValue? items key with
  | none =>
    refine iff_of_false (fun hp => ?_) (by simp)
    exact absurd hp.1 (by decide)
  | some value =>
    simp only [Option.getD_some, Option.some.injEq, exists_eq_left']
    constructor
    · rintro ⟨hp, he⟩
      exact ⟨he ▸ hp, he⟩
    · rintro ⟨hp, he⟩
      exact ⟨he ▸ hp, he⟩

theorem layoutFor_eq_ok_iff {layout : Layout} :
    layoutFor (optionValue? items "layout") = .ok layout ↔
    (∀ value, InForce items "layout" value → value = "type".toList ∨ value = "file".toList) ∧
      (layout = .file ↔ InForce items "layout" "file".toList) := by
  simp only [← optionValue?_eq_some_iff]
  cases h : optionValue? items "layout" with
  | none => cases layout <;> simp [layoutFor]
  | some value =>
    simp only [layoutFor, Option.some.injEq, forall_eq']
    split_ifs with htype hfile
    · subst htype
      cases layout <;> simp
    · subst hfile
      cases layout <;> simp
    · exact iff_of_false nofun fun h => h.1.elim htype hfile

theorem givesPackage_unique {package package' : String} (h : GivesPackage value package)
    (h' : GivesPackage value package') : package = package' := by
  rw [givesPackage_iff] at h h'
  exact String.toList_inj.mp (h.trans h'.symm)

theorem packageFor_below_iff {bean converter : String} (hbean : IsDottedPackage bean) :
    packageFor key (bean.toList ++ ".converter".toList) = .ok converter ↔
      converter = bean ++ ".converter" := by
  rw [packageFor_eq_ok_iff, ← String.toList_append, String.toList_inj]
  refine and_iff_right ?_
  rw [String.toList_append]
  exact Naming.isPackageName_append (isDottedPackage_iff.mp hbean) (by decide)

/-- The package for converters is the one that is given, if it is not empty, or stands below the one
for beans. -/
theorem packageFor_converter_iff {bean converter : String} (hbean : IsDottedPackage bean) :
    packageFor "cvtpkg" (if normalPackage ((optionValue? items "cvtpkg").getD []) = [] then
        bean.toList ++ ".converter".toList
      else normalPackage ((optionValue? items "cvtpkg").getD [])) = .ok converter ↔
    (∀ value package, InForce items "cvtpkg" value → GivesPackage value package →
      package = "" ∨ IsDottedPackage package) ∧
    (converter ≠ "" ∧
        (∃ value, InForce items "cvtpkg" value ∧ GivesPackage value converter) ∨
      (∀ value, InForce items "cvtpkg" value → GivesPackage value "") ∧
        converter = bean ++ ".converter") := by
  simp only [← optionValue?_eq_some_iff, givesPackage_iff, isDottedPackage_iff]
  cases optionValue? items "cvtpkg" with
  | none =>
    have hnil : normalPackage ((none : Option (List Char)).getD []) = [] := rfl
    rw [if_pos hnil, packageFor_below_iff hbean]
    simp
  | some value =>
    simp only [Option.getD_some, Option.some.injEq]
    by_cases hnil : normalPackage value = []
    · rw [if_pos hnil, packageFor_below_iff hbean]
      constructor
      · rintro rfl
        refine ⟨?_, Or.inr ⟨?_, rfl⟩⟩
        · rintro _ package rfl hp
          exact Or.inl (String.toList_eq_nil_iff.mp (hp.trans hnil))
        · rintro _ rfl
          exact hnil.symm
      · rintro ⟨-, ⟨hne, _, rfl, hc⟩ | ⟨-, h⟩⟩
        · exact absurd (String.toList_eq_nil_iff.mp (hc.trans hnil)) hne
        · exact h
    · rw [if_neg hnil, packageFor_eq_ok_iff]
      constructor
      · rintro ⟨hp, hc⟩
        refine ⟨?_, Or.inl ⟨?_, value, rfl, hc⟩⟩
        · rintro _ package rfl hv
          exact Or.inr (hv ▸ hp)
        · rintro rfl
          exact hnil hc.symm
      · rintro ⟨hall, ⟨hne, _, rfl, hc⟩ | ⟨hempty, -⟩⟩
        · exact ⟨hc ▸ (hall _ converter rfl hc).resolve_left hne, hc⟩
        · exact absurd (hempty value rfl).symm hnil

theorem normalPackage_of_inForce {package : String} (hf : InForce items key value)
    (hv : GivesPackage value package) :
    normalPackage ((optionValue? items key).getD []) = package.toList := by
  rw [optionValue?_eq_some_iff.mpr hf]
  exact (givesPackage_iff.mp hv).symm

/-- Options are read from acceptable items, as what those say. -/
theorem Options.read_iff (h : HasItems text items) :
    Options.read text = .ok o ↔ Acceptable items ∧ o.MeantBy items := by
  obtain rfl := hasItems_iff.mp h
  rw [Options.read_eq_ok_iff]
  dsimp only
  rw [packageFor_value_iff, layoutFor_eq_ok_iff]
  simp only [optionValue?_eq_some_iff]
  constructor
  · rintro ⟨⟨hdotted, value, hforce, hvalue⟩, hconverter, ⟨hlayouts, hlayout⟩, hannotate⟩
    rw [normalPackage_of_inForce hforce hvalue, packageFor_converter_iff hdotted] at hconverter
    exact ⟨⟨⟨value, _, hforce, hvalue, hdotted⟩, hconverter.1, hlayouts⟩,
      ⟨⟨value, hforce, hvalue⟩, hconverter.2, hlayout, hannotate⟩⟩
  · rintro ⟨haccept, hmeant⟩
    obtain ⟨value, package, hforce, hvalue, hdotted⟩ := haccept.bean
    obtain ⟨value', hforce', hvalue'⟩ := hmeant.bean
    obtain rfl := inForce_unique hforce hforce'
    obtain rfl := givesPackage_unique hvalue hvalue'
    refine ⟨⟨hdotted, value, hforce, hvalue⟩, ?_, ⟨haccept.layout, hmeant.layout⟩,
      hmeant.annotateCode⟩
    rw [normalPackage_of_inForce hforce hvalue, packageFor_converter_iff hdotted]
    exact ⟨haccept.converter, hmeant.converter⟩

/-- Acceptable items say some options. -/
theorem Acceptable.exists_meantBy (h : Acceptable items) : ∃ o : Options, o.MeantBy items := by
  classical
  obtain ⟨value, bean, hforce, hvalue, -⟩ := h.bean
  have hconverter : ∃ converter : String, converter ≠ "" ∧
      (∃ value, InForce items "cvtpkg" value ∧ GivesPackage value converter) ∨
      (∀ value, InForce items "cvtpkg" value → GivesPackage value "") ∧
        converter = bean ++ ".converter" := by
    by_cases hempty : ∀ value, InForce items "cvtpkg" value → GivesPackage value ""
    · exact ⟨_, Or.inr ⟨hempty, rfl⟩⟩
    · push Not at hempty
      obtain ⟨value, hf, hne⟩ := hempty
      have hgiven : GivesPackage value (String.ofList (normalPackage value)) :=
        givesPackage_iff.mpr String.toList_ofList
      refine ⟨_, Or.inl ⟨fun he => hne (he ▸ hgiven), value, hf, hgiven⟩⟩
  obtain ⟨converter, hconverter⟩ := hconverter
  refine ⟨⟨bean, converter, if InForce items "layout" "file".toList then .file else .type,
    decide (InForce items "annotate_code" [] ∨ InForce items "annotate_code" "true".toList)⟩,
    ⟨value, hforce, hvalue⟩, hconverter, ?_, decide_eq_true_iff⟩
  dsimp only
  split_ifs with hfile
  · exact iff_of_true rfl hfile
  · exact iff_of_false nofun hfile

end Reading

section Revisions

variable {ps qs : List String} {p : String}

/-- The keys that options are read from. -/
def optionKeys : List String :=
  ["vopkg", "cvtpkg", "layout", "annotate_code"]

/-- The key that a part of a text has. -/
def partKey (part : String) : List Char :=
  (optionItem part.toList).1

/-- Changes to the parts of a text that leave what is in force. -/
inductive Revises : List String → List String → Prop
  /-- Parts change places, and those of one key keep their order. -/
  | reorder {ps qs : List String} : ps.Perm qs →
      (∀ key, ps.filter (partKey · = key) = qs.filter (partKey · = key)) → Revises ps qs
  | empty {ps qs : List String} : Revises (ps ++ qs) (ps ++ "" :: qs)
  /-- A part with a key that nothing is read from is put in. -/
  | other {ps qs : List String} {p : String} : (∀ key ∈ optionKeys, partKey p ≠ key.toList) →
      Revises (ps ++ qs) (ps ++ p :: qs)
  /-- A part is put in before another one of its key. -/
  | overridden {ps qs : List String} {p q : String} : q ∈ qs → partKey q = partKey p →
      Revises (ps ++ qs) (ps ++ p :: qs)

theorem ne_nil_of_mem_optionKeys {key : String} (h : key ∈ optionKeys) : key.toList ≠ [] := by
  have hkeys : ∀ key ∈ optionKeys, key.toList ≠ [] := by decide
  exact hkeys key h

theorem optionValue?_append (items items' : Items) (key : String) :
    optionValue? (items ++ items') key =
      (optionValue? items' key).or (optionValue? items key) := by
  rw [optionValue?, List.reverse_append, List.lookup_append]
  rfl

theorem optionValue?_singleton (item : List Char × List Char) (key : String) :
    optionValue? [item] key = if item.1 = key.toList then some item.2 else none := by
  obtain ⟨first, value⟩ := item
  rw [optionValue?, List.reverse_singleton]
  by_cases h : first = key.toList
  · rw [if_pos h, h, List.lookup_cons_self]
  · rw [if_neg h, List.lookup_cons, beq_false_of_ne (Ne.symm h)]
    rfl

/-- The value in force for a key is that of the last part with the key. -/
theorem optionValue?_itemsOf {key : String} (hkey : key.toList ≠ []) (ps : List String) :
    optionValue? (itemsOf ps) key =
      ((ps.filter (partKey · = key.toList)).getLast?).map fun p => (optionItem p.toList).2 := by
  induction ps using List.reverseRecOn with
  | nil => rfl
  | append_singleton ps p ih =>
    by_cases hempty : p = ""
    · have hp : partKey p ≠ key.toList := hempty ▸ Ne.symm hkey
      have hitems : itemsOf (ps ++ [p]) = itemsOf ps := by simp [itemsOf, hempty]
      rw [hitems, ih, List.filter_append, List.filter_cons_of_neg (by simpa using hp),
        List.filter_nil, List.append_nil]
    · have hitems : itemsOf (ps ++ [p]) = itemsOf ps ++ [optionItem p.toList] := by
        simp [itemsOf, hempty]
      rw [hitems, optionValue?_append, optionValue?_singleton, ih, List.filter_append]
      by_cases hp : partKey p = key.toList
      · have hkept : [p].filter (partKey · = key.toList) = [p] := by simp [hp]
        rw [hkept, List.getLast?_concat, if_pos (show (optionItem p.toList).1 = key.toList from hp)]
        rfl
      · have hdropped : [p].filter (partKey · = key.toList) = [] := by simp [hp]
        rw [hdropped, List.append_nil, if_neg (show (optionItem p.toList).1 ≠ key.toList from hp)]
        rfl

/-- A change to the parts leaves the values that options are read from. -/
theorem Revises.optionValue?_eq (h : Revises ps qs) {key : String} (hkey : key ∈ optionKeys) :
    optionValue? (itemsOf ps) key = optionValue? (itemsOf qs) key := by
  have hskip : ∀ {ps qs p}, partKey p ≠ key.toList →
      (ps ++ p :: qs).filter (partKey · = key.toList) =
        (ps ++ qs).filter (partKey · = key.toList) := by
    intro ps qs p hp
    rw [List.filter_append, List.filter_append, List.filter_cons_of_neg (by simpa using hp)]
  have hne := ne_nil_of_mem_optionKeys hkey
  -- The last part with the key is all that counts, so only parts with the key matter.
  rw [optionValue?_itemsOf hne, optionValue?_itemsOf hne]
  refine congrArg _ ?_
  cases h with
  | reorder _ hfilter => rw [hfilter]
  | empty => rw [hskip (p := "") (Ne.symm hne)]
  | other hother => rw [hskip (hother key hkey)]
  | @overridden ps qs p q hq hkeys =>
    by_cases hp : partKey p = key.toList
    · have hmem : q ∈ qs.filter (partKey · = key.toList) :=
        List.mem_filter.mpr ⟨hq, decide_eq_true (hkeys.trans hp)⟩
      have hqs := List.ne_nil_of_mem hmem
      have hkept : (p :: qs).filter (partKey · = key.toList) =
          p :: qs.filter (partKey · = key.toList) := List.filter_cons_of_pos (decide_eq_true hp)
      rw [List.filter_append, List.filter_append, hkept, List.getLast?_append_of_ne_nil _ hqs,
        List.getLast?_append_of_ne_nil _ (List.cons_ne_nil _ _), List.getLast?_cons_of_ne_nil hqs]
    · rw [hskip hp]

/-- Texts with the same values in force are read alike. -/
theorem Options.read_congr {text text' : String} (h : ∀ key ∈ optionKeys,
      optionValue? (optionItems text.toList) key = optionValue? (optionItems text'.toList) key) :
    Options.read text = Options.read text' := by
  simp only [optionKeys, List.forall_mem_cons] at h
  obtain ⟨hbean, hconverter, hlayout, hannotate, -⟩ := h
  unfold Options.read
  dsimp only
  rw [hbean, hconverter, hlayout, hannotate]

theorem Options.read_revised (h : Relation.EqvGen Revises ps qs) (hps : ∀ p ∈ ps, ',' ∉ p.toList)
    (hqs : ∀ q ∈ qs, ',' ∉ q.toList) :
    Options.read (joined "," ps) = Options.read (joined "," qs) := by
  apply Options.read_congr
  intro key hkey
  rw [optionItems_joined hps, optionItems_joined hqs]
  clear hps hqs
  induction h with
  | rel _ _ h => exact h.optionValue?_eq hkey
  | refl => rfl
  | symm _ _ _ ih => exact ih.symm
  | trans _ _ _ _ _ ih ih' => exact ih.trans ih'

end Revisions

section Written

def Layout.text : Layout → String
  | .type => "type"
  | .file => "file"

/-- The ways to say whether code is annotated. -/
def Options.flags (o : Options) : List String :=
  if o.annotateCode then ["annotate_code", "annotate_code=true"] else ["", "annotate_code=false"]

/-- The parts of a text that says all options, with `flag` for the annotations. -/
def Options.parts (o : Options) (flag : String) : List String :=
  ["vopkg=" ++ o.beanPackage, "cvtpkg=" ++ o.converterPackage, "layout=" ++ o.layout.text, flag]

variable {cs : List Char} {o : Options} {flag : String}

theorem mem_of_isPackageName (h : isPackageName cs) {c : Char} (hc : c ∈ cs) :
    c = '.' ∨ Naming.isSegmentPart c := by
  refine (mem_pieces_of_mem '.' hc).imp_right ?_
  rintro ⟨p, hp, hcp⟩
  exact (Naming.isSegment_iff.mp (Naming.isPackageName_iff.mp h p hp)).2 c hcp

theorem plain_of_isPackageName (h : isPackageName cs) {c : Char} (hc : c ∈ cs) :
    c ≠ ',' ∧ ¬ isBlank c ∧ c.toNat ≤ 0x7a ∧ ¬ c.isUpper := by
  rcases mem_of_isPackageName h hc with rfl | hpart
  · decide
  · have hplain := Naming.of_isWord (p := fun c => c ≠ ',' && !isBlank c) (by decide)
      (Naming.isWord_of_isSegmentPart hpart)
    have := Naming.not_isUpper_of_isSegmentPart hpart
    simp_all

theorem nil_not_mem_pieces (h : isPackageName cs) : [] ∉ pieces '.' cs :=
  fun hm => absurd (Naming.isPackageName_iff.mp h [] hm) (by decide)

/-- A package is understood as it is. -/
theorem givesPackage_self {package : String} (h : isPackageName package.toList) :
    GivesPackage package.toList package := by
  have hends := nil_not_mem_pieces h
  rw [GivesPackage, lower_eq_self fun c hc => (plain_of_isPackageName h hc).2.2, strips_iff]
  generalize package.toList = cs at hends
  refine (dropEndsWhile_eq_self (fun c hc => ?_) fun c hc => ?_).symm
  · obtain ⟨r, rfl⟩ := List.head?_eq_some_iff.mp hc
    rw [decide_eq_true_iff]
    rintro rfl
    exact hends (pieces_append '.' [] r ▸ List.mem_append_left _ List.mem_cons_self)
  · obtain ⟨r, rfl⟩ := List.getLast?_eq_some_iff.mp hc
    rw [decide_eq_true_iff]
    rintro rfl
    exact hends (pieces_append '.' r [] ▸ List.mem_append_right _ List.mem_cons_self)

theorem optionItem_valued {lead value : String} (key : List Char)
    (hlead : lead.toList = key ++ ['=']) (hkey : '=' ∉ key) (hk : trim key = key)
    (hv : ∀ c ∈ value.toList, ¬ isBlank c) :
    optionItem (lead ++ value).toList = (key, value.toList) := by
  have hsplit : (lead ++ value).toList = key ++ '=' :: value.toList := by
    rw [String.toList_append, hlead, List.append_assoc]
    rfl
  have hvalue : trim value.toList = value.toList :=
    dropEndsWhile_eq_self (fun c hc => hv c (List.mem_of_mem_head? hc))
      fun c hc => hv c (List.mem_of_getLast? hc)
  rw [hsplit, optionItem, cut?_append hkey]
  dsimp only
  rw [hk, hvalue]

theorem itemsOf_parts (hb : isPackageName o.beanPackage.toList)
    (hc : isPackageName o.converterPackage.toList) (flag : String) :
    itemsOf (o.parts flag) = [("vopkg".toList, o.beanPackage.toList),
      ("cvtpkg".toList, o.converterPackage.toList),
      ("layout".toList, o.layout.text.toList)] ++ itemsOf [flag] := by
  have hcons : ∀ {lead value : String} {ps : List String}, lead ≠ "" →
      itemsOf ((lead ++ value) :: ps) = optionItem (lead ++ value).toList :: itemsOf ps := by
    intro lead value ps hlead
    simp [itemsOf, hlead]
  have hlayout : o.layout.text.toList.any isBlank = false := by
    cases o.layout <;> decide
  rw [Options.parts, hcons (by decide), hcons (by decide), hcons (by decide),
    optionItem_valued "vopkg".toList rfl (by decide) (by decide)
      fun c h => (plain_of_isPackageName hb h).2.1,
    optionItem_valued "cvtpkg".toList rfl (by decide) (by decide)
      fun c h => (plain_of_isPackageName hc h).2.1,
    optionItem_valued "layout".toList rfl (by decide) (by decide)
      (List.any_eq_false.mp hlayout)]
  rfl

theorem comma_not_mem_parts (hb : isPackageName o.beanPackage.toList)
    (hc : isPackageName o.converterPackage.toList) (hflag : flag ∈ o.flags) :
    ∀ part ∈ o.parts flag, ',' ∉ part.toList := by
  have hpackage : ∀ {package : String}, isPackageName package.toList → ',' ∉ package.toList :=
    fun h hm => (plain_of_isPackageName h hm).1 rfl
  have hlayout : ',' ∉ o.layout.text.toList := by
    cases o.layout <;> decide
  have hflags : ∀ flag ∈ ["annotate_code", "annotate_code=true", "", "annotate_code=false"],
      ',' ∉ flag.toList := by decide
  have hmem : flag ∈ ["annotate_code", "annotate_code=true", "", "annotate_code=false"] := by
    unfold Options.flags at hflag
    split at hflag
    · exact List.mem_append_left ["", "annotate_code=false"] hflag
    · exact List.mem_append_right ["annotate_code", "annotate_code=true"] hflag
  simp only [Options.parts, List.forall_mem_cons, String.toList_append, List.mem_append, not_or]
  exact ⟨⟨by decide, hpackage hb⟩, ⟨by decide, hpackage hc⟩, ⟨by decide, hlayout⟩, hflags _ hmem,
    List.forall_mem_nil _⟩

theorem flag_items (hflag : flag ∈ o.flags) :
    (∀ item ∈ itemsOf [flag], item.1 = "annotate_code".toList) ∧
      (o.annotateCode ↔ optionValue? (itemsOf [flag]) "annotate_code" = some [] ∨
        optionValue? (itemsOf [flag]) "annotate_code" = some "true".toList) := by
  unfold Options.flags at hflag
  split at hflag
  · next h =>
    rw [iff_true_left h]
    revert flag
    decide
  · next h =>
    rw [iff_false_left h]
    revert flag
    decide

/-- The values that options are read from, when they were written out. -/
theorem optionValue?_parts (hb : isPackageName o.beanPackage.toList)
    (hc : isPackageName o.converterPackage.toList) (hflag : flag ∈ o.flags) :
    let items := itemsOf (o.parts flag)
    optionValue? items "vopkg" = some o.beanPackage.toList ∧
      optionValue? items "cvtpkg" = some o.converterPackage.toList ∧
      optionValue? items "layout" = some o.layout.text.toList ∧
      optionValue? items "annotate_code" = optionValue? (itemsOf [flag]) "annotate_code" := by
  have hother : ∀ {key : String}, key.toList ≠ "annotate_code".toList →
      optionValue? (itemsOf [flag]) key = none :=
    fun h => optionValue?_eq_none_iff.mpr fun item hi => (flag_items hflag).1 item hi ▸ h.symm
  dsimp only
  rw [itemsOf_parts hb hc]
  simp only [optionValue?_append]
  rw [hother (by decide), hother (by decide), hother (by decide)]
  exact ⟨rfl, rfl, rfl, Option.or_none⟩

/-- Options that are written out are read again. -/
theorem Options.read_written (hb : IsDottedPackage o.beanPackage)
    (hc : IsDottedPackage o.converterPackage) (hflag : flag ∈ o.flags) :
    Options.read (joined "," (o.parts flag)) = .ok o := by
  rw [isDottedPackage_iff] at hb hc
  have hself : ∀ {package : String}, isPackageName package.toList →
      normalPackage package.toList = package.toList :=
    fun h => (givesPackage_iff.mp (givesPackage_self h)).symm
  have hne : o.converterPackage.toList ≠ [] := fun h => absurd (h ▸ hc) (by decide)
  obtain ⟨hbean, hconverter, hlayout, hannotate⟩ := optionValue?_parts hb hc hflag
  rw [Options.read_eq_ok_iff, optionItems_joined (comma_not_mem_parts hb hc hflag)]
  dsimp only
  rw [hbean, hconverter, hlayout, hannotate, Option.getD_some, Option.getD_some, hself hb,
    hself hc, if_neg hne]
  refine ⟨packageFor_eq_ok_iff.mpr ⟨hb, rfl⟩, packageFor_eq_ok_iff.mpr ⟨hc, rfl⟩, ?_,
    (flag_items hflag).2⟩
  cases o.layout <;> rfl

theorem Options.read_dotted {text : String} (h : Options.read text = .ok o) :
    IsDottedPackage o.beanPackage ∧ IsDottedPackage o.converterPackage :=
  (Options.read_packages h).imp isDottedPackage_iff.mpr isDottedPackage_iff.mpr

end Written

/-- Every text is read by its items: options are read from acceptable items, as what those say, and
other texts are refused. Changes to the parts of a text that leave what is in force make no
difference, and options that can be read are read again from what says all of them. -/
theorem options_grammar :
    (∀ text, ∃ items, HasItems text items ∧ (∀ items', HasItems text items' → items' = items) ∧
      ((∃ o, Options.read text = .ok o) ↔ Acceptable items) ∧
      (∀ o, Options.read text = .ok o ↔ Acceptable items ∧ o.MeantBy items) ∧
      ∀ e, Options.read text = .error e → ∃ fault, e = .options fault) ∧
    (∀ ps qs, (∀ p ∈ ps, ',' ∉ p.toList) → (∀ q ∈ qs, ',' ∉ q.toList) →
      Relation.EqvGen Revises ps qs →
      Options.read (joined "," ps) = Options.read (joined "," qs)) ∧
    ∀ o : Options, ((∃ text, Options.read text = .ok o) ↔
        IsDottedPackage o.beanPackage ∧ IsDottedPackage o.converterPackage) ∧
      ((∃ text, Options.read text = .ok o) → ∀ flag ∈ o.flags,
        Options.read (joined "," (o.parts flag)) = .ok o) := by
  refine ⟨fun text => ?grammar, fun ps qs hps hqs h => Options.read_revised h hps hqs,
    fun o => ⟨⟨?dotted, ?written⟩, ?again⟩⟩
  case grammar =>
    have hitems : HasItems text (optionItems text.toList) := hasItems_iff.mpr rfl
    refine ⟨_, hitems, fun _ => hasItems_iff.mp, ⟨?_, fun h => ?_⟩,
      fun o => Options.read_iff hitems, fun e => Options.exists_fault⟩
    · rintro ⟨o, ho⟩
      exact ((Options.read_iff hitems).mp ho).1
    · obtain ⟨o, ho⟩ := h.exists_meantBy
      exact ⟨o, (Options.read_iff hitems).mpr ⟨h, ho⟩⟩
  case dotted =>
    rintro ⟨text, h⟩
    exact Options.read_dotted h
  case written =>
    rintro ⟨hbean, hconverter⟩
    obtain ⟨flag, hflag⟩ : ∃ flag, flag ∈ o.flags := by
      unfold Options.flags
      split
      · exact ⟨_, List.mem_cons_self⟩
      · exact ⟨_, List.mem_cons_self⟩
    exact ⟨_, Options.read_written hbean hconverter hflag⟩
  case again =>
    rintro ⟨text, h⟩ flag hflag
    obtain ⟨hbean, hconverter⟩ := Options.read_dotted h
    exact Options.read_written hbean hconverter hflag

/-- A package is overridden by one with white space and dots around it, and options are read again
with their parts in another order. -/
theorem options_grammar_overridden :
    (∃ items, HasItems "vopkg=b,, vopkg = .Acme.VO. ,x=1,layout=file,annotate_code" items ∧
      Acceptable items ∧
      (⟨"acme.vo", "acme.vo.converter", .file, true⟩ : Options).MeantBy items) ∧
    Relation.EqvGen Revises ["vopkg=b", "vopkg=a", "layout=file"] ["layout=file", "vopkg=a"] ∧
    Options.read (joined "," ["vopkg=b", "vopkg=a", "layout=file"]) =
      Options.read (joined "," ["layout=file", "vopkg=a"]) ∧
    Options.read "vopkg=acme.vo,cvtpkg=acme.vo.converter,layout=file,annotate_code=true" =
      .ok ⟨"acme.vo", "acme.vo.converter", .file, true⟩ := by
  have hread : Options.read "vopkg=b,, vopkg = .Acme.VO. ,x=1,layout=file,annotate_code" =
      .ok ⟨"acme.vo", "acme.vo.converter", .file, true⟩ := by decide +kernel
  have hbean : partKey "vopkg=a" = "vopkg".toList := rfl
  have hbean' : partKey "vopkg=b" = "vopkg".toList := rfl
  have hlayout : partKey "layout=file" = "layout".toList := rfl
  have hdropped : Revises ([] ++ ["vopkg=a", "layout=file"])
      ([] ++ "vopkg=b" :: ["vopkg=a", "layout=file"]) :=
    .overridden List.mem_cons_self (hbean.trans hbean'.symm)
  have hmoved : Revises ["vopkg=a", "layout=file"] ["layout=file", "vopkg=a"] := by
    refine .reorder (List.Perm.swap ..) fun key => ?_
    simp only [List.filter_cons, List.filter_nil, hbean, hlayout, decide_eq_true_eq]
    by_cases h : "vopkg".toList = key
    · subst h
      decide
    · rw [if_neg h, if_neg h]
  have hrevised := (Relation.EqvGen.rel _ _ hdropped).symm.trans _ _ _ (.rel _ _ hmoved)
  have hwritten : "vopkg=acme.vo,cvtpkg=acme.vo.converter,layout=file,annotate_code=true" =
      joined "," (Options.parts ⟨"acme.vo", "acme.vo.converter", .file, true⟩
        "annotate_code=true") := by decide +kernel
  obtain ⟨items, hitems, -, -, hmeant, -⟩ := options_grammar.1
    "vopkg=b,, vopkg = .Acme.VO. ,x=1,layout=file,annotate_code"
  refine ⟨⟨items, hitems, (hmeant _).mp hread⟩, hrevised,
    options_grammar.2.1 _ _ (by decide) (by decide) hrevised, ?_⟩
  rw [hwritten]
  exact (options_grammar.2.2 _).2 ⟨_, hread⟩ "annotate_code=true" (by decide)

end ProtoJava
