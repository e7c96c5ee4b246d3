import ProtoJava.Proofs.Bean.TaggedUnions
import ProtoJava.Proofs.Schema.Aliases

/-! # Enums

An enum becomes one of numbered constants with a look-up by number. Values with the same number
have a constant each, but only the first one has a case: the look-up of the number of a constant
returns the first constant with it.
-/

namespace ProtoJava

namespace Java

/-- A constant of an enum with its number. -/
structure NumberedConstant where
  /-- The declaration it is annotated with. -/
  path : Schema.Path
  name : String
  number : Int
  /-- The constant that it is called an alias of. -/
  aliasOf : Option String
deriving Repr, DecidableEq, Inhabited

def Step.isComment : Step → Bool
  | .comment _ => true
  | _ => false

/-- Steps are read as a constant before a mark, with comments around it. -/
def NumberedConstant.ReadFrom (c : NumberedConstant) (mark : String) (steps : List Step) : Prop :=
  ∃ (before after : List Step) (deprecated : Bool), (∀ s ∈ before ++ after, s.isComment) ∧
    steps = before ++ (c.aliasOf.toList.map fun first =>
        .line ("// Duplicate value: " ++ toString c.number ++ ", alias of " ++ first)) ++
      (if deprecated then [.line "@Deprecated"] else []) ++
      [.annotated c.path "" c.name ("(" ++ toString c.number ++ ")" ++ mark)] ++ after

/-- Steps are read as constants, with commas between them and a semicolon at the end. -/
inductive ReadsConstants : List Step → List NumberedConstant → Prop
  | nil : ReadsConstants [.line ";"] []
  | last {steps : List Step} {c : NumberedConstant} (h : c.ReadFrom ";" steps) :
    ReadsConstants steps [c]
  | cons {steps rest : List Step} {c d : NumberedConstant} {cs : List NumberedConstant}
    (h : c.ReadFrom "," steps) (hr : ReadsConstants rest (d :: cs)) :
    ReadsConstants (steps ++ rest) (c :: d :: cs)

/-- The steps in an enum are read as the given constants, followed by its methods. -/
def NumberedEnum.ReadFrom (e : NumberedEnum) (cs : List NumberedConstant) (body : List Step) :
    Prop :=
  ∃ comments constants, (∀ s ∈ comments, s.isComment) ∧ ReadsConstants constants cs ∧
    body = comments ++ constants ++ [.blank] ++ e.members

/-- The first constant with a number. -/
def firstOf (cs : List NumberedConstant) (number : Int) : Option String :=
  (cs.find? (·.number = number)).map (·.name)

/-- A source file with an enum in it, which has the given constants. -/
def Artifact.HasEnum (a : Artifact) (path : Schema.Path) (e : NumberedEnum)
    (cs : List NumberedConstant) : Prop :=
  ∃ body, a.Has [.annotated path "public enum " e.name " \x7b", .body "\x7d" body] ∧
    e.ReadFrom cs body ∧ e.constants = cs.map fun c => (c.name, c.number)

end Java

namespace Bean

open Java
open Mapping

/-- An enum has a constant for each value, and its look-up is by the first value with a number. -/
structure Numbers (e : NumberedEnum) (cs : List NumberedConstant) (t : Schema.EnumType)
    (n : Naming.EnumNames) : Prop where
  name : e.name = n.className
  /-- There is one constant for each value, in order. -/
  values : cs.map (fun c => (c.path, c.number)) = t.values.map fun v => (v.path, v.number)
  names : cs.map (·.name) = n.constants
  names_nodup : n.constants.Nodup
  /-- The labels of cases are the declared numbers, each of them once, in order. -/
  labels_nodup : (e.lookup.cases.map (·.1)).Nodup
  mem_labels : ∀ k, k ∈ e.lookup.cases.map (·.1) ↔ k ∈ t.values.map (·.number)
  labels_ordered : (e.lookup.cases.map (·.1)).Pairwise fun k k' =>
    ∀ i i', t.IsFirst k i → t.IsFirst k' i' → i < i'
  /-- A case returns the constant of the first value with its number. -/
  cases : ∀ k x, (k, x) ∈ e.lookup.cases → ∃ first, firstOf cs k = some first ∧ x = .name first
  /-- Each constant but the first one with a number is called an alias of that one. -/
  aliases : ∀ i c, cs[i]? = some c →
    ∃ j, t.IsFirst c.number j ∧ c.aliasOf = if j < i then firstOf cs c.number else none
  others : e.lookup.others = (n.constants.head?.map .name).getD .null
  getNumber : ∀ c ∈ cs, e.getNumber c.name = some (.number c.number)
  /-- The look-up of the number of a constant returns the first constant with that number. -/
  forNumber_getNumber : ∀ c ∈ cs, ∃ first, firstOf cs c.number = some first ∧
    (e.getNumber c.name).bind e.forNumber = some (.constant e.name first)
  forNumber_unknown : ∀ k ∉ t.values.map (·.number), e.forNumber (.number k) =
    some ((n.constants.head?.map (.constant e.name)).getD .null)

namespace EnumShape

/-- The constant that a value becomes. -/
def constant (e : EnumShape) (v : Schema.EnumValue) (name : String) : NumberedConstant where
  path := v.path
  name
  number := v.number
  aliasOf := v.aliasOf.map fun first => e.names.constants.getD first ""

/-- The constants of an enum. -/
def constants (e : EnumShape) : List NumberedConstant :=
  (e.type.values.zip e.names.constants).map fun x => e.constant x.1 x.2

/-- The enum that a schema enum becomes. -/
def numbered (e : EnumShape) : NumberedEnum :=
  .tabulated e.names.className (e.constants.map fun c => (c.name, c.number)) e.cases
    ((e.names.constants.head?.map .name).getD .null)

/-- What stands in the braces of an enum. -/
def body (f : Schema.File) (e : EnumShape) : List Step :=
  trailing f e.type.path ++ constantsSteps f e ++ [.blank] ++ numberMembers e.names.className ++
    [.blank, forNumberMethod e.names.className e.cases
      [.line ("default: return " ++ e.names.constants.headD "null" ++ ";")]]

end EnumShape

section Reading

variable {f : Schema.File} {e : EnumShape}

theorem isComment_of_mem {text : Option String} {s : Step} (h : s ∈ commentSteps text) :
    s.isComment := by
  obtain ⟨t, -, rfl⟩ : ∃ t, text = some t ∧ .comment t = s := by simpa [commentSteps] using h
  rfl

theorem constantSteps_reads (i : Nat) (v : Schema.EnumValue) (name : String) :
    (e.constant v name).ReadFrom (if i + 1 = e.type.values.length then ";" else ",")
      (constantSteps f e i v name) := by
  refine ⟨leading f v.path, trailing f v.path, v.deprecated, ?_, ?_⟩
  · intro s hs
    rcases List.mem_append.mp hs with hs | hs <;> exact isComment_of_mem hs
  · cases h : v.aliasOf <;>
      simp [constantSteps, EnumShape.constant, deprecatedMark, h, String.append_assoc]

/-- The last values of an enum are read as constants, which only after the very last one end. -/
theorem reads_constants {l : List (Schema.EnumValue × String)} (hne : l ≠ []) (k : Nat)
    (hk : k + l.length = e.type.values.length) :
    ReadsConstants (l.mapIdx fun i x => constantSteps f e (k + i) x.1 x.2).flatten
      (l.map fun x => e.constant x.1 x.2) := by
  induction l generalizing k with
  | nil => exact absurd rfl hne
  | cons x l ih =>
    have hread := constantSteps_reads (f := f) (e := e) k x.1 x.2
    rw [List.mapIdx_cons, List.flatten_cons, List.map_cons, Nat.add_zero]
    cases l with
    | nil =>
      rw [if_pos (show k + 1 = _ from hk)] at hread
      rw [List.mapIdx_nil, List.flatten_nil, List.append_nil]
      exact .last hread
    | cons y l =>
      rw [List.length_cons, List.length_cons] at hk
      rw [if_neg (by omega)] at hread
      have hrest := ih (List.cons_ne_nil y l) (k + 1) (by rw [List.length_cons]; omega)
      simp only [Nat.add_right_comm k 1, Nat.add_assoc k] at hrest
      exact .cons hread hrest

theorem constantsSteps_reads (h : e.names.constants.length = e.type.values.length) :
    ReadsConstants (constantsSteps f e) e.constants := by
  have hlength : (e.type.values.zip e.names.constants).length = e.type.values.length := by
    rw [List.length_zip, h, Nat.min_self]
  rw [constantsSteps, EnumShape.constants]
  by_cases hv : e.type.values = []
  · simpa [hv] using ReadsConstants.nil
  · rw [if_neg (by simpa using hv), List.nil_append]
    have hne : e.type.values.zip e.names.constants ≠ [] := by
      rw [← List.length_pos_iff, hlength, List.length_pos_iff]
      exact hv
    have hall := reads_constants (f := f) (e := e) hne 0 ((Nat.zero_add _).trans hlength)
    simpa using hall

theorem EnumShape.body_reads (h : e.names.constants.length = e.type.values.length) :
    e.numbered.ReadFrom e.constants (e.body f) := by
  refine ⟨trailing f e.type.path, constantsSteps f e, fun s => isComment_of_mem,
    constantsSteps_reads h, ?_⟩
  have hothers : ((e.names.constants.head?.map Expr.name).getD .null).source =
      e.names.constants.headD "null" := by
    cases e.names.constants <;> rfl
  rw [EnumShape.body, EnumShape.numbered, NumberedEnum.members_tabulated, hothers]
  simp only [List.append_assoc]

end Reading

section Laws

variable {e : EnumShape} (ha : e.type.Aliased)
  (hl : e.names.constants.length = e.type.values.length)

theorem getElem?_constants {i : Nat} {c : NumberedConstant} :
    e.constants[i]? = some c ↔ ∃ v name, e.type.values[i]? = some v ∧
      e.names.constants[i]? = some name ∧ e.constant v name = c := by
  simp [EnumShape.constants, List.getElem?_zip_eq_some, and_assoc]

include hl in
theorem numbered_names : e.constants.map (·.name) = e.names.constants := by
  have hsnd : (e.type.values.zip e.names.constants).map Prod.snd = e.names.constants :=
    List.map_snd_zip hl.le
  rw [← hsnd]
  simp [EnumShape.constants, EnumShape.constant]

include hl in
theorem numbered_keys :
    (e.constants.map fun c => (c.name, c.number)).map (·.1) = e.names.constants := by
  rw [List.map_map]
  exact numbered_names hl

include hl in
theorem numbered_values : e.constants.map (fun c => (c.path, c.number)) =
    e.type.values.map fun v => (v.path, v.number) := by
  have hfst : (e.type.values.zip e.names.constants).map Prod.fst = e.type.values :=
    List.map_fst_zip hl.ge
  rw [← hfst]
  simp [EnumShape.constants, EnumShape.constant]

include hl in
/-- Where there is a value, there is a constant for it. -/
theorem exists_constant {i : Nat} {v : Schema.EnumValue} (hv : e.type.values[i]? = some v) :
    ∃ name, e.names.constants[i]? = some name ∧
      e.constants[i]? = some (e.constant v name) := by
  obtain ⟨hi, -⟩ := List.getElem?_eq_some_iff.mp hv
  obtain ⟨name, hname⟩ : ∃ name, e.names.constants[i]? = some name :=
    ⟨_, List.getElem?_eq_getElem (hl ▸ hi)⟩
  exact ⟨name, hname, getElem?_constants.mpr ⟨v, name, hv, hname, rfl⟩⟩

include hl in
/-- The first constant with a number is that of the first value with it. -/
theorem firstOf_eq {k : Int} {i : Nat} (hk : e.type.IsFirst k i) :
    firstOf e.constants k = e.names.constants[i]? := by
  obtain ⟨v, hv, rfl⟩ := hk.exists_value
  obtain ⟨name, hname, hc⟩ := exists_constant hl hv
  obtain ⟨hi, hget⟩ := List.getElem?_eq_some_iff.mp hc
  have hfind : e.constants.find? (·.number = v.number) = some (e.constant v name) := by
    rw [List.find?_eq_some_iff_getElem]
    refine ⟨decide_eq_true rfl, i, hi, hget, fun j hj => ?_⟩
    obtain ⟨w, other, hw, -, hother⟩ := getElem?_constants.mp
      (List.getElem?_eq_getElem (hj.trans hi))
    rw [← hother, Bool.not_eq_true', decide_eq_false_iff_not]
    intro he
    have hle := hk.le j (by rw [hw, Option.map_some]; exact congrArg some he)
    omega
  rw [firstOf, hfind, hname]
  rfl

include ha in
/-- There is a case for the first value with a number. -/
theorem mem_cases_iff {k : Int} {name : String} :
    (k, name) ∈ e.cases ↔ ∃ i, e.type.IsFirst k i ∧ e.names.constants[i]? = some name := by
  have hmem : (k, name) ∈ e.cases ↔ ∃ (i : Nat) (v : Schema.EnumValue),
      (e.type.values.zip e.names.constants)[i]? = some (v, name) ∧ v.aliasOf = none ∧
        v.number = k := by
    simp only [EnumShape.cases, List.mem_map, List.mem_filter]
    constructor
    · rintro ⟨⟨v, _⟩, ⟨hx, hv⟩, he⟩
      obtain ⟨rfl, rfl⟩ := Prod.mk.inj he
      obtain ⟨i, hi⟩ := List.mem_iff_getElem?.mp hx
      exact ⟨i, v, hi, by simpa using hv, rfl⟩
    · rintro ⟨i, v, hi, hv, rfl⟩
      exact ⟨(v, name), ⟨List.mem_of_getElem? hi, by simp [hv]⟩, rfl⟩
  rw [hmem]
  constructor
  · rintro ⟨i, v, hi, hv, rfl⟩
    obtain ⟨hvalue, hname⟩ := List.getElem?_zip_eq_some.mp hi
    exact ⟨i, (ha.isFirst_iff hvalue).mpr hv, hname⟩
  · rintro ⟨i, hi, hname⟩
    obtain ⟨v, hv, rfl⟩ := hi.exists_value
    exact ⟨i, v, List.getElem?_zip_eq_some.mpr ⟨hv, hname⟩, (ha.isFirst_iff hv).mp hi, rfl⟩

include ha hl in
theorem mem_labels_iff {k : Int} :
    k ∈ e.cases.map (·.1) ↔ k ∈ e.type.values.map (·.number) := by
  constructor
  · intro h
    obtain ⟨⟨_, name⟩, hc, rfl⟩ := List.mem_map.mp h
    obtain ⟨i, hi, -⟩ := (mem_cases_iff ha).mp hc
    obtain ⟨v, hv, hn⟩ := hi.exists_value
    exact List.mem_map.mpr ⟨v, List.mem_of_getElem? hv, hn⟩
  · intro h
    obtain ⟨i, hi⟩ := ha.exists_isFirst h
    obtain ⟨v, hv, -⟩ := hi.exists_value
    obtain ⟨name, hname, -⟩ := exists_constant hl hv
    exact List.mem_map.mpr ⟨(k, name), (mem_cases_iff ha).mpr ⟨i, hi, hname⟩, rfl⟩

include ha in
/-- Cases stand in the order of the first values. -/
theorem labels_ordered : (e.cases.map (·.1)).Pairwise fun k k' =>
    ∀ i i', e.type.IsFirst k i → e.type.IsFirst k' i' → i < i' := by
  simp only [EnumShape.cases, List.map_map, List.pairwise_map, List.pairwise_filter]
  rw [List.pairwise_iff_getElem]
  intro i j hi hj hij hnone hnone' k k' hk hk'
  rw [List.getElem_zip] at hnone hnone' hk hk'
  have hfirst :=
    (ha.isFirst_iff (List.getElem?_eq_getElem _)).mpr (Option.isNone_iff_eq_none.mp hnone)
  have hfirst' :=
    (ha.isFirst_iff (List.getElem?_eq_getElem _)).mpr (Option.isNone_iff_eq_none.mp hnone')
  rw [hk.unique hfirst, hk'.unique hfirst']
  exact hij

include ha in
theorem labels_nodup : (e.cases.map (·.1)).Nodup := by
  refine (labels_ordered ha).imp_of_mem fun {k k'} hk _ hlt he => ?_
  obtain ⟨⟨_, name⟩, hc, rfl⟩ := List.mem_map.mp hk
  obtain ⟨i, hi, -⟩ := (mem_cases_iff ha).mp hc
  exact Nat.lt_irrefl i (hlt i i hi (he ▸ hi))

theorem labels_numbered : e.numbered.lookup.cases.map (·.1) = e.cases.map (·.1) :=
  NumberedEnum.labels_tabulated

variable (hd : e.names.constants.Nodup) (hnumber : "number" ∉ e.names.constants)

include ha hl hd hnumber in
/-- The look-up of a declared number returns the first constant with it. -/
theorem forNumber_eq {k : Int} (hk : k ∈ e.type.values.map (·.number)) :
    ∃ first, firstOf e.constants k = some first ∧
      e.numbered.forNumber (.number k) = some (.constant e.names.className first) := by
  obtain ⟨i, hi⟩ := ha.exists_isFirst hk
  obtain ⟨v, hv, -⟩ := hi.exists_value
  obtain ⟨name, hname, -⟩ := exists_constant hl hv
  have hcase : (k, name) ∈ e.cases := (mem_cases_iff ha).mpr ⟨i, hi, hname⟩
  refine ⟨name, by rw [firstOf_eq hl hi, hname], ?_⟩
  rw [← numbered_keys hl] at hd hnumber
  apply NumberedEnum.forNumber_case hd hnumber (labels_nodup ha) hcase
  rw [numbered_keys hl]
  exact List.mem_of_getElem? hname

include ha hl hd hnumber in
theorem forNumber_unknown {k : Int} (hk : k ∉ e.type.values.map (·.number)) :
    e.numbered.forNumber (.number k) =
      some ((e.names.constants.head?.map (.constant e.names.className)).getD .null) := by
  rw [← mem_labels_iff ha hl] at hk
  rw [EnumShape.numbered, NumberedEnum.forNumber_others hk]
  cases hc : e.names.constants.head? with
  | none => rfl
  | some first =>
    rw [← numbered_keys hl] at hd hnumber
    apply NumberedEnum.eval_name hd hnumber
    rw [numbered_keys hl]
    exact List.mem_of_mem_head? hc

include ha hl hnumber in
/-- An enum with distinct names for its constants is one of numbers. -/
theorem EnumShape.numbers (hd : e.names.constants.Nodup) :
    Numbers e.numbered e.constants e.type e.names := by
  have hgetNumber : ∀ c ∈ e.constants, e.numbered.getNumber c.name = some (.number c.number) := by
    intro c hc
    have hmem : (c.name, c.number) ∈ e.constants.map fun c => (c.name, c.number) :=
      List.mem_map.mpr ⟨c, hc, rfl⟩
    exact NumberedEnum.getNumber_tabulated (numbered_keys hl ▸ hd) hmem
  constructor
  case name => rfl
  case values => exact numbered_values hl
  case names => exact numbered_names hl
  case names_nodup => exact hd
  case labels_nodup => exact labels_numbered ▸ labels_nodup ha
  case mem_labels => exact fun k => labels_numbered ▸ mem_labels_iff ha hl
  case labels_ordered => exact labels_numbered ▸ labels_ordered ha
  case cases =>
    intro k x hx
    obtain ⟨⟨_, name⟩, hc, he⟩ := List.mem_map.mp hx
    obtain ⟨rfl, rfl⟩ := Prod.mk.inj he
    obtain ⟨i, hi, hname⟩ := (mem_cases_iff ha).mp hc
    exact ⟨name, by rw [firstOf_eq hl hi, hname], rfl⟩
  case aliases =>
    intro i c hc
    obtain ⟨v, name, hv, -, rfl⟩ := getElem?_constants.mp hc
    obtain ⟨j, hj, halias⟩ := ha i v hv
    refine ⟨j, hj, ?_⟩
    rw [EnumShape.constant, halias, firstOf_eq hl hj]
    split
    · next hlt =>
      obtain ⟨w, hw, -⟩ := hj.exists_value
      obtain ⟨other, hother, -⟩ := exists_constant hl hw
      simp [hother]
    · rfl
  case others => rfl
  case getNumber => exact hgetNumber
  case forNumber_getNumber =>
    intro c hc
    have hk : c.number ∈ e.type.values.map (·.number) := by
      obtain ⟨i, hi⟩ := List.mem_iff_getElem?.mp hc
      obtain ⟨v, name, hv, -, rfl⟩ := getElem?_constants.mp hi
      exact List.mem_map_of_mem (List.mem_of_getElem? hv)
    rw [hgetNumber c hc]
    exact forNumber_eq ha hl hd hnumber hk
  case forNumber_unknown => exact fun k hk => forNumber_unknown ha hl hd hnumber hk

end Laws

/-- The enums declared in the message of an outline. -/
def Outline.enums : Outline → List EnumShape
  | .node _ _ enums _ => enums

/-- An enum of an outline, or of one in it. -/
def Outline.Declares (o : Outline) (e : EnumShape) : Prop :=
  ∃ o' : Outline, o'.Inside o ∧ e ∈ o'.enums

/-- Steps that enclose an enum. -/
def EnclosesEnum (f : Schema.File) (steps : List Step) (e : EnumShape) : Prop :=
  Encloses (declared e.type.path "public enum " e.names.className "" (e.body f)) steps

section Emission

variable (ctx : Context) (f : Schema.File)

theorem enumSteps_enclose (e : EnumShape) : EnclosesEnum f (enumSteps f e) e :=
  (Encloses.self _).prepend (leading f e.type.path ++ deprecatedMark e.type.deprecated)

theorem messageSteps_enclose (modifiers : String) {o : Outline} {e : EnumShape} (h : e ∈ o.enums) :
    Yields AnyImports (messageSteps ctx f modifiers o) fun steps => EnclosesEnum f steps e := by
  obtain ⟨shape, extensions, enums, nested⟩ := o
  rw [messageSteps]
  apply (Yields.trivial _).bind
  intro members _
  apply (Yields.trivial _).bind
  intro classes _
  have hbody := (((enumSteps_enclose f e).trans (enumsSteps_enclose f h)).prepend members).append
    classes
  exact Yields.pure ((hbody.declared _ _ _ _).prepend _)

end Emission

/-- The enums in the contents of a file: its own, and those of its messages. -/
def Contents.Emits (c : Contents) (e : EnumShape) : Prop :=
  e ∈ c.enums ∨ ∃ o ∈ c.messages, o.Declares e

section Files

variable {ctx : Context} {file : Nat}

theorem SourceContains.hasEnum {a : Artifact} {part : Referring (List Step)} {f : Schema.File}
    {e : EnumShape} (h : SourceContains a part)
    (hpart : Yields AnyImports part fun steps => EnclosesEnum f steps e)
    (hl : e.names.constants.length = e.type.values.length) :
    a.HasEnum e.type.path e.numbered e.constants := by
  obtain ⟨i, hsteps⟩ := h
  exact ⟨e.body f, hsteps.of_encloses (hpart i trivial).1, EnumShape.body_reads hl, rfl⟩

/-- Every enum of a file stands in one of the source files. -/
theorem beans_hasEnum {as : List Artifact} (h : beans ctx file = .ok as) :
    ∃ c, Contents.of ctx file = .ok c ∧ ∀ e, c.Emits e →
      e.names.constants.length = e.type.values.length → ∃ a ∈ as,
        a.HasEnum e.type.path e.numbered e.constants := by
  obtain ⟨c, hc, hmessages, henums⟩ := beans_contain h
  refine ⟨c, hc, fun e he hl => ?_⟩
  rcases he with he | ⟨top, htop, o, ho, he⟩
  · obtain ⟨a, ha, hcontains⟩ := henums e he
    exact ⟨a, ha, hcontains.hasEnum (Yields.pure (enumSteps_enclose c.file e)) hl⟩
  · obtain ⟨a, ha, m, hcontains⟩ := hmessages top htop o ho
    exact ⟨a, ha, hcontains.hasEnum (messageSteps_enclose ctx c.file m he) hl⟩

end Files

section Prepared

variable {raws : List Descriptor.File} {g : Schema.Graph} {o : Options} {generate : List Nat}
  {file i : Nat}

/-- Every enum that is shown is in the contents of its file. -/
theorem Contents.emits_of_shows {c : Contents} (hl : (g.file file).Linked)
    (hc : Contents.of (Context.prepare o g generate) file = .ok c)
    (h : g.Shows (.enum ⟨file, i⟩)) :
    c.Emits (EnumShape.of (Context.prepare o g generate) file i) := by
  obtain ⟨hi, hparent⟩ := h
  cases hp : ((g.file file).enumType i).parent with
  | none =>
    obtain ⟨_, -, -, -, he, -⟩ := Contents.of_ok hc
    rw [Contents.Emits, he]
    exact Or.inl (List.mem_map_of_mem (Schema.File.mem_topEnums_iff.mpr ⟨hi, hp⟩))
  | some p =>
    have hs : (g.file file).Shown p := hparent p hp
    obtain ⟨outline, hof, top, htop, hin⟩ := exists_inside hl hc hs
    obtain ⟨shape, _, _, hshape, -, -, rfl⟩ := Outline.of_ok hof
    obtain ⟨ps, -, rfl⟩ := Shape.of_eq_ok_iff.mp hshape
    exact Or.inr ⟨top, htop, _, hin, List.mem_map_of_mem ((hl.mem_enums_iff hs.lt).mpr ⟨hi, hp⟩)⟩

theorem allocate_constants (o : Options) (generate : List Nat)
    (hi : i < (g.file file).enums.length) :
    ((Naming.allocate o g generate).enumNames ⟨file, i⟩).constants.length =
        (g.enumType ⟨file, i⟩).values.length ∧
      Naming.Distinct Naming.enumMembers
        ((Naming.allocate o g generate).enumNames ⟨file, i⟩).constants := by
  have hnames : (Naming.allocate o g generate).enumNames ⟨file, i⟩ = _ :=
    Naming.allocate_enumNames hi
  rw [hnames]
  exact ⟨by simp [Naming.enumNames, Naming.Registry.claimAll_length, Schema.Graph.enumType],
    Naming.claimAll_distinct _ _⟩

/-- In every built graph a value of an enum is an alias of the first one with its number, and each
enum that is no part of a map entry stands in a bean with a constant for each value, and with a
look-up by the first values. -/
theorem beans_enums (hg : Schema.Graph.build raws = .ok g) (o : Options) (generate : List Nat) :
    (∀ id, (g.enumType id).Aliased) ∧
    ∀ file as, beans (Context.prepare o g generate) file = .ok as →
      ∀ i, g.Shows (.enum ⟨file, i⟩) → ∃ a ∈ as, ∃ e cs,
        a.HasEnum (g.enumType ⟨file, i⟩).path e cs ∧ Numbers e cs (g.enumType ⟨file, i⟩)
          ((Naming.allocate o g generate).enumNames ⟨file, i⟩) := by
  refine ⟨Schema.Graph.build_aliased hg, fun file as h i hi => ?_⟩
  obtain ⟨c, hc, hall⟩ := beans_hasEnum h
  obtain ⟨hlength, hnodup, hfresh⟩ := allocate_constants o generate hi.1
  have hemits := Contents.emits_of_shows (Schema.Graph.build_linked hg file) hc hi
  obtain ⟨a, ha, hhas⟩ := hall _ hemits hlength
  have hnumber : "number" ∉ (EnumShape.of (Context.prepare o g generate) file i).names.constants :=
    fun hm => (hfresh _ hm).1 (by decide)
  exact ⟨a, ha, _, _, hhas,
    EnumShape.numbers (Schema.Graph.build_aliased hg _) hlength hnumber hnodup⟩

end Prepared

/-- A file with an enum whose aliases are interleaved, one of them of a negative number, and an
enum without values in a message. -/
def gauge : Descriptor.File where
  name := "gauge.proto"
  package := "gauge"
  messages := [{ name := "Dial", enums := [{ name := "Unit" }] }]
  enums := [{
    name := "Level"
    values := [
      { name := "LOW", number := -1 }, { name := "HIGH", number := 2 },
      { name := "MIN", number := -1 }, { name := "NONE", number := 0 },
      { name := "low", number := 2 }] }]

theorem beans_enums_gauge :
    ∃ g as, Schema.Graph.build [gauge] = .ok g ∧
      beans (Context.prepare ⟨"bean", "conv", .file, false⟩ g [0]) 0 = .ok as ∧
      (g.enumType ⟨0, 0⟩).Aliased ∧ ∀ i < 2, ∃ a ∈ as, ∃ e cs,
        a.HasEnum (g.enumType ⟨0, i⟩).path e cs ∧ Numbers e cs (g.enumType ⟨0, i⟩)
          ((Naming.allocate ⟨"bean", "conv", .file, false⟩ g [0]).enumNames ⟨0, i⟩) := by
  let g := (Schema.Graph.build [gauge]).toOption.getD default
  have hg : Schema.Graph.build [gauge] = .ok g := rfl
  let ctx := Context.prepare ⟨"bean", "conv", .file, false⟩ g [0]
  have hroots : ((ctx.graph.file 0).topMessages.filter fun i =>
      !((ctx.graph.file 0).message i).mapEntry) = [0] := by
    decide +kernel
  have houtline : (Outline.of ctx 0 0).isOk := by
    rw [Outline.of]
    decide +kernel
  have hextensions : (extensionsOf ctx none (ctx.graph.file 0).extensions
      (ctx.names.file 0).extensions).isOk := by
    decide +kernel
  obtain ⟨as, has⟩ := exists_beans_of_isOk (by simpa [hroots] using houtline) hextensions
  obtain ⟨haliased, h⟩ := beans_enums hg ⟨"bean", "conv", .file, false⟩ [0]
  have henums : ∀ i < 2, i < (g.file 0).enums.length ∧
      ∀ p ∈ ((g.file 0).enumType i).parent, p < (g.file 0).messages.length ∧
        (g.file 0).shown p := by
    decide +kernel
  have hshows : ∀ i < 2, g.Shows (.enum ⟨0, i⟩) := by
    intro i hi
    obtain ⟨hlt, hparent⟩ := henums i hi
    refine ⟨hlt, fun p hp => ?_⟩
    obtain ⟨hp, hshown⟩ := hparent p hp
    exact ((Schema.Graph.build_linked hg 0).shown_iff hp).mp hshown
  exact ⟨g, as, hg, has, haliased _, fun i hi => h 0 as has i (hshows i hi)⟩

end Bean

end ProtoJava
