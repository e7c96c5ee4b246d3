import ProtoJava.Bean.File
import ProtoJava.Proofs.Java.BareLines
import ProtoJava.Proofs.Mapping.Referring

/-! # Comments in beans

Where the comments of a schema stand in the sources of beans. The steps of a bean are lines, and the
starts of declarations with their comments: the leading comment comes before, the trailing comment
right after the line that opens the declaration. Oneofs, their members and extensions are written
without a trailing comment.
-/

namespace ProtoJava.Bean

open Java
open Mapping

/-- The kinds of declarations that comments are attached to. A member of a oneof has a class of its
own, so it is no field. -/
inductive Construct
  | message
  | enum
  | value
  | field
  | oneof
  | member
  | extension
deriving DecidableEq

/-- Whether the trailing comment of a declaration is written. -/
def Construct.trails : Construct → Bool
  | .message | .enum | .value | .field => true
  | .oneof | .member | .extension => false

/-- A declaration of a schema file, with the name it is declared by in a bean. -/
structure Documented where
  construct : Construct
  path : Schema.Path
  name : String
deriving DecidableEq

/-- The line that opens the declaration of a name. -/
inductive Opens : Construct → String → String → Prop
  | message (nested : Bool) (name : String) : Opens .message name
      ((if nested then "public static " else "public ") ++ "class " ++ name ++ " \x7b")
  | enum (name : String) : Opens .enum name ("public enum " ++ name ++ " \x7b")
  | value (name : String) (number : Int) (mark : String) :
      Opens .value name (name ++ "(" ++ toString number ++ ")" ++ mark)
  | field (type name : String) (initial : Option String) :
      Opens .field name ("public " ++ type ++ " " ++ name ++ (initial.elim ";" (" = " ++ · ++ ";")))
  | oneof (name : String) : Opens .oneof name ("public enum " ++ name ++ " \x7b")
  | member (name iface : String) : Opens .member name
      ("public static final class " ++ name ++ " implements " ++ iface ++ " \x7b")
  | extension (name : String) (number : Int) : Opens .extension name
      ("public static final int " ++ name ++ " = " ++ toString number ++ ";")

/-- A part of a source text: some lines, or the start of a declaration, with notes on it that are no
comments of the schema. -/
inductive Passage
  | plain (lines : List String)
  | declaration (d : Documented) (notes : List String) (deprecated : Bool) (opening : String)

namespace Passage

/-- The lines of a passage with the comments on its declaration, where `remark` gives the lines of a
comment. -/
def lines (remark : String → List String) (comments : Schema.Path → Option Schema.Comments) :
    Passage → List String
  | plain lines => lines
  | declaration d notes deprecated opening =>
    ((comments d.path).bind (·.leading)).toList.flatMap remark ++
    (notes.map ("// " ++ ·) ++ (if deprecated then ["@Deprecated"] else []) ++
      [opening]).flatMap (bareLines ·.toList) ++
    if d.construct.trails then ((comments d.path).bind (·.trailing)).toList.flatMap remark else []

def declaration? : Passage → Option Documented
  | plain _ => none
  | declaration d _ _ _ => some d

/-- A declaration is opened by a line that declares its name. -/
def Sound : Passage → Prop
  | plain _ => True
  | declaration d _ _ opening => Opens d.construct d.name opening

end Passage

/-- Steps that are cut into passages for the given declarations, in order, and have the comments of
the file in these places only. -/
def Documents (f : Schema.File) (steps : List Step) (ds : List Documented) : Prop :=
  ∃ ps : List Passage,
    (∀ remark, bareOf remark steps = ps.flatMap (Passage.lines remark f.commentsAt?)) ∧
      (∀ p ∈ ps, p.Sound) ∧ ps.filterMap Passage.declaration? = ds

namespace Documents

variable {f : Schema.File} {steps rest a b : List Step} {d : Documented}
  {ds ds' : List Documented}

theorem mute (h : muteAll steps) : Documents f steps [] := by
  refine ⟨[.plain (bareOf lineComments steps)], fun remark => ?_, ?_, rfl⟩
  · rw [List.flatMap_singleton, Passage.lines, bareOf_of_mute remark lineComments steps h]
  · rw [List.forall_mem_singleton, Passage.Sound]
    trivial

theorem append (ha : Documents f a ds) (hb : Documents f b ds') :
    Documents f (a ++ b) (ds ++ ds') := by
  obtain ⟨ps, hps, hsound, rfl⟩ := ha
  obtain ⟨qs, hqs, hsound', rfl⟩ := hb
  refine ⟨ps ++ qs, fun remark => ?_, ?_, List.filterMap_append⟩
  · rw [bareOf_append, List.flatMap_append, hps, hqs]
  · rw [List.forall_mem_append]
    exact ⟨hsound, hsound'⟩

/-- Steps without comments before others. -/
theorem before (ha : muteAll a) (hb : Documents f b ds) : Documents f (a ++ b) ds :=
  (mute ha).append hb

/-- Steps without comments after others. -/
theorem after (ha : Documents f a ds) (hb : muteAll b) : Documents f (a ++ b) ds := by
  have hall := ha.append (mute hb)
  rwa [List.append_nil] at hall

theorem flatten {α : Type} {l : List α} {k : α → List Documented} {lists : List (List Step)}
    (h : List.Forall₂ (fun x steps => Documents f steps (k x)) l lists) :
    Documents f lists.flatten (l.flatMap k) := by
  induction h with
  | nil => exact mute rfl
  | cons h _ ih => exact h.append ih

theorem flatMap {α : Type} {l : List α} {g : α → List Step} {k : α → List Documented}
    (h : ∀ x ∈ l, Documents f (g x) (k x)) : Documents f (l.flatMap g) (l.flatMap k) := by
  rw [List.flatMap_def]
  apply flatten
  rw [List.forall₂_map_right_iff]
  exact List.forall₂_same.mpr h

/-- Steps with the same lines. -/
theorem congr (h : Documents f a ds) (hab : ∀ remark, bareOf remark b = bareOf remark a) :
    Documents f b ds := by
  obtain ⟨ps, hps, hsound, hds⟩ := h
  exact ⟨ps, fun remark => (hab remark).trans (hps remark), hsound, hds⟩

theorem body (h : Documents f steps ds) (footer : String) :
    Documents f [.body footer steps] ds := by
  refine (h.after (b := [.line footer]) rfl).congr fun remark => ?_
  simp [Step.bare]

/-- Steps that begin with the start of a declaration. -/
theorem opened (h : Documents f rest ds) (notes : List String) (deprecated : Bool)
    {opening : String} (ho : Opens d.construct d.name opening)
    (hsteps : ∀ remark, bareOf remark steps =
      (Passage.declaration d notes deprecated opening).lines remark f.commentsAt? ++
        bareOf remark rest) : Documents f steps (d :: ds) := by
  obtain ⟨ps, hps, hsound, rfl⟩ := h
  refine ⟨.declaration d notes deprecated opening :: ps, fun remark => ?_, ?_, rfl⟩
  · rw [hsteps, hps, List.flatMap_cons]
  · rw [List.forall_mem_cons]
    exact ⟨ho, hsound⟩

/-- In a file without comments it does not matter how comments are written. -/
theorem bareOf_eq (h : Documents f steps ds) (hf : ∀ p, f.commentsAt? p = none)
    (remark remark' : String → List String) : bareOf remark steps = bareOf remark' steps := by
  obtain ⟨ps, hps, -, -⟩ := h
  have hlines : ∀ p : Passage, p.lines remark f.commentsAt? = p.lines remark' f.commentsAt? := by
    intro p
    cases p with
    | plain lines => rfl
    | declaration d notes deprecated opening => simp [Passage.lines, hf]
  rw [hps, hps, funext hlines]

end Documents

section Snippets

variable (remark : String → List String)

@[simp] theorem bareOf_leading (f : Schema.File) (path : Schema.Path) :
    bareOf remark (leading f path) =
      ((f.commentsAt? path).bind (·.leading)).toList.flatMap remark := by
  rw [leading, commentSteps]
  cases (f.commentsAt? path).bind (·.leading) <;> simp [Step.bare]

@[simp] theorem bareOf_trailing (f : Schema.File) (path : Schema.Path) :
    bareOf remark (trailing f path) =
      ((f.commentsAt? path).bind (·.trailing)).toList.flatMap remark := by
  rw [trailing, commentSteps]
  cases (f.commentsAt? path).bind (·.trailing) <;> simp [Step.bare]

@[simp] theorem bareOf_deprecatedMark (deprecated : Bool) :
    bareOf remark (deprecatedMark deprecated) =
      (if deprecated then ["@Deprecated"] else []).flatMap (bareLines ·.toList) := by
  cases deprecated <;> rfl

theorem mute_forNumberMethod (name : String) (cases_ : List (Int × String)) {others : List Step}
    (h : muteAll others) : (forNumberMethod name cases_ others).mute := by
  simp only [muteAll_eq_all] at h
  simp [forNumberMethod, braced, Step.mute, h]

end Snippets

section Enums

/-- The declarations of an enum: itself and its values. -/
def EnumShape.documented (e : EnumShape) : List Documented :=
  ⟨.enum, e.type.path, e.names.className⟩ ::
    (e.type.values.zip e.names.constants).map fun p => ⟨.value, p.1.path, p.2⟩

def Extension.documented (x : Extension) : Documented :=
  ⟨.extension, x.property.field.path, x.names.numberConst⟩

theorem constantSteps_documents (f : Schema.File) (e : EnumShape) (i : Nat) (v : Schema.EnumValue)
    (constant : String) :
    Documents f (constantSteps f e i v constant) [⟨.value, v.path, constant⟩] := by
  let notes := v.aliasOf.toList.map fun first =>
    "Duplicate value: " ++ toString v.number ++ ", alias of " ++ e.names.constants.getD first ""
  let mark := if i + 1 = e.type.values.length then ";" else ","
  have hnone : Documents f [] [] := .mute rfl
  apply hnone.opened notes v.deprecated (.value constant v.number mark)
  intro remark
  simp only [constantSteps, notes]
  cases v.aliasOf <;> simp [mark, Passage.lines, Construct.trails, Step.bare]

theorem constantsSteps_documents (f : Schema.File) (e : EnumShape) :
    Documents f (constantsSteps f e)
      ((e.type.values.zip e.names.constants).map fun p => ⟨.value, p.1.path, p.2⟩) := by
  have hend : muteAll (if e.type.values.isEmpty then [Step.line ";"] else []) := by
    split <;> rfl
  apply Documents.before hend
  rw [← List.flatMap_singleton' (l := List.map _ _), List.flatMap_map]
  apply Documents.flatten
  rw [List.forall₂_iff_get]
  refine ⟨by simp, fun k hk hk' => ?_⟩
  simpa using constantSteps_documents f e k _ _

theorem enumSteps_documents (f : Schema.File) (e : EnumShape) :
    Documents f (enumSteps f e) e.documented := by
  let others := [Step.line ("default: return " ++ e.names.constants.headD "null" ++ ";")]
  let members := [.blank] ++ numberMembers e.names.className ++
    [.blank, forNumberMethod e.names.className e.cases others, .line "\x7d"]
  have hmembers : muteAll members := by
    simp [members, others, numberMembers, braced, mute_forNumberMethod, Step.mute]
  have hrest := (constantsSteps_documents f e).after hmembers
  apply hrest.opened [] e.type.deprecated (.enum e.names.className)
  intro remark
  simp [enumSteps, declared, members, others, Passage.lines, Construct.trails, Step.bare]

theorem extensionSteps_documents (f : Schema.File) (x : Extension) :
    Documents f (extensionSteps f x) [x.documented] := by
  let note :=
    "extend " ++ plainName x.target ++ " \x7b " ++ x.property.describe f.dialect ++ " \x7d"
  let extendee := "public static final String " ++ x.names.extendeeConst ++ " = " ++
    Text.quoted (plainName x.target) ++ ";"
  have hrest : Documents f [.line extendee, .blank] [] := .mute rfl
  apply hrest.opened [note] false (.extension x.names.numberConst x.property.field.number)
  intro remark
  simp [extensionSteps, Extension.documented, note, extendee, Passage.lines, Construct.trails,
    Step.bare]

theorem holderSteps_documents (f : Schema.File) (modifiers name : String)
    (extensions : List Extension) :
    Documents f (holderSteps f modifiers name extensions)
      (extensions.map Extension.documented) := by
  have hx : Documents f (extensions.flatMap (extensionSteps f))
      (extensions.flatMap ([·.documented])) :=
    .flatMap fun x _ => extensionSteps_documents f x
  rw [← List.map_eq_flatMap] at hx
  exact .before (a := [.line _]) rfl ((hx.before (a := [.line _, .blank]) rfl).body "\x7d")

end Enums

section Unions

variable (ctx : Context) (f : Schema.File) (u : Union)

def variantDocumented (v : Variant) : Documented :=
  ⟨.member, v.member.property.field.path, v.names.wrapper⟩

/-- The declarations of an item: a field, or a oneof with its members. -/
def itemDocumented : Item → List Documented
  | .field m => [⟨.field, m.property.field.path, m.names.field⟩]
  | .union u => ⟨.oneof, u.oneof.path, u.names.caseEnum⟩ :: u.variants.map variantDocumented

/-- The class of a member in its parts. -/
theorem exists_wrapperStep (v : Variant) (type shownPayload : String) :
    ∃ body, wrapperStep u v type shownPayload =
        .block ("public static final class " ++ v.names.wrapper ++ " implements " ++
          u.names.iface ++ " \x7b") "\x7d" body ∧ muteAll body :=
  ⟨_, rfl, by simp [braced, Step.mute]⟩

/-- The enum of the cases in its parts. -/
theorem exists_caseEnumStep : ∃ body, caseEnumStep u =
    .block ("public enum " ++ u.names.caseEnum ++ " \x7b") "\x7d" body ∧ muteAll body := by
  refine ⟨_, rfl, ?_⟩
  simp [caseConstantSteps, numberMembers, braced, mute_forNumberMethod, Step.mute]

theorem variantSteps_documents (v : Variant) :
    Yields AnyImports (variantSteps ctx f u v) fun steps =>
      Documents f steps [variantDocumented v] := by
  refine (Yields.trivial _).bind fun type _ => (Yields.trivial _).bind fun payload _ => ?_
  refine Yields.pure ?_
  obtain ⟨body, hstep, hbody⟩ := exists_wrapperStep u v type payload
  have hrest : Documents f (body ++ [.line "\x7d", .blank]) [] := (Documents.mute hbody).after rfl
  apply hrest.opened [v.member.property.describe f.dialect] v.member.property.field.deprecated
    (.member v.names.wrapper u.names.iface)
  intro remark
  rw [hstep]
  simp [variantDocumented, Passage.lines, Construct.trails, Step.bare]

theorem unionSteps_documents : Yields AnyImports (unionSteps ctx f u) fun steps =>
    Documents f steps (itemDocumented (.union u)) := by
  refine (Yields.mapM fun v _ => variantSteps_documents ctx f u v).bind fun variants hv => ?_
  refine Yields.pure ?_
  obtain ⟨body, hstep, hbody⟩ := exists_caseEnumStep u
  have hvariants := Documents.flatten hv
  rw [← List.map_eq_flatMap] at hvariants
  have htypes : muteAll (body ++ [.line "\x7d", .blank, ifaceStep u, .blank]) := by
    rw [muteAll_append, hbody]
    rfl
  have hrest := (hvariants.before htypes).after (b := [.annotated u.oneof.path
    ("public " ++ u.names.iface ++ " ") u.names.field ";"]) rfl
  apply hrest.opened [] false (.oneof u.names.caseEnum)
  intro remark
  rw [hstep]
  simp [Passage.lines, Construct.trails, Step.bare]

theorem accessorSteps_mute (v : Variant) :
    Yields AnyImports (accessorSteps ctx u v) fun steps => muteAll steps := by
  refine (Yields.trivial _).bind fun type _ => (Yields.trivial _).bind fun fallback _ => ?_
  exact Yields.pure rfl

theorem unionAccessorSteps_mute :
    Yields AnyImports (unionAccessorSteps ctx u) fun steps => muteAll steps := by
  refine (Yields.mapM fun v _ => accessorSteps_mute ctx u v).bind fun accessors h => ?_
  refine Yields.pure ?_
  rw [muteAll_append, muteAll_flatten h]
  rfl

end Unions

section Messages

variable (ctx : Context) (f : Schema.File)

theorem fieldSteps_documents (m : Member) :
    Yields AnyImports (fieldSteps ctx f m) fun steps =>
      Documents f steps [⟨.field, m.property.field.path, m.names.field⟩] := by
  refine (Yields.trivial _).bind fun type _ => (Yields.trivial _).bind fun initial _ => ?_
  refine Yields.pure ?_
  have hnone : Documents f [] [] := .mute rfl
  apply hnone.opened [m.property.describe f.dialect] m.property.field.deprecated
    (.field type m.names.field initial)
  intro remark
  cases initial <;> simp [Passage.lines, Construct.trails, Step.bare]

theorem itemSteps_documents (i : Item) :
    Yields AnyImports (itemSteps ctx f i) fun steps => Documents f steps (itemDocumented i) := by
  cases i with
  | field m =>
    exact (fieldSteps_documents ctx f m).bind fun steps h => Yields.pure (h.after rfl)
  | union u =>
    exact (unionSteps_documents ctx f u).bind fun steps h => Yields.pure (h.after rfl)

theorem defaultSteps_mute (m : Member) :
    Yields AnyImports (defaultSteps ctx m) fun steps => muteAll steps := by
  unfold defaultSteps
  split
  · refine (Yields.trivial _).bind fun literal _ => ?_
    split
    · exact (Yields.trivial _).bind fun type _ => Yields.pure rfl
    · exact Yields.pure rfl
  · exact Yields.pure rfl

theorem mute_toStringSteps (className : String) (parts : List (String × String)) :
    muteAll (toStringSteps className parts) := by
  have hparts : (parts.mapIdx shownPartStep).all Step.mute := by
    rw [List.all_eq_true]
    intro s hs
    obtain ⟨i, hi, rfl⟩ := List.mem_mapIdx.mp hs
    rfl
  by_cases h : parts.isEmpty <;> simp [toStringSteps, braced, Step.mute, h, hparts]

theorem mute_rangeStep (range : Int × Int) : (rangeStep range).mute := by
  unfold rangeStep
  dsimp only
  split
  · rfl
  · split <;> rfl

/-- What a class holds before the classes declared in it follows its trailing comment. -/
theorem memberSteps_documents (s : Shape) (extensions : List Extension) :
    Yields AnyImports (memberSteps ctx f s extensions) fun steps =>
      ∃ rest, steps = trailing f s.message.path ++ rest ∧
        Documents f rest (s.items.flatMap itemDocumented ++
          extensions.map Extension.documented) := by
  refine (Yields.mapM fun i _ => itemSteps_documents ctx f i).bind fun items hi => ?_
  refine (Yields.mapM fun m _ => defaultSteps_mute ctx m).bind fun defaults hd => ?_
  refine (Yields.mapM fun u _ => unionAccessorSteps_mute ctx u).bind fun accessors ha => ?_
  refine (Yields.trivial _).bind fun parts _ => Yields.pure ?_
  let constants := s.members.map numberStep ++ defaults.flatten ++ [.blank]
  let others := s.message.extensionRanges.map rangeStep ++ [.blank] ++ accessors.flatten ++
    toStringSteps s.names.className parts ++ [.blank]
  have hconstants : muteAll constants := by
    have hnumbers : muteAll (s.members.map numberStep) := by simp [numberStep, Step.mute]
    simp only [constants, muteAll_append, hnumbers, muteAll_flatten hd]
    rfl
  have hothers : muteAll others := by
    have hranges : muteAll (s.message.extensionRanges.map rangeStep) := by simp [mute_rangeStep]
    simp only [others, muteAll_append, hranges, muteAll_flatten ha, mute_toStringSteps]
    rfl
  have hx : Documents f (extensions.flatMap (extensionSteps f))
      (extensions.flatMap ([·.documented])) :=
    .flatMap fun x _ => extensionSteps_documents f x
  rw [← List.map_eq_flatMap] at hx
  have hall := (Documents.flatten hi).append ((hx.before hconstants).after hothers)
  refine ⟨_, ?_, hall⟩
  simp [constants, others]

mutual

/-- The declarations in an outline. -/
def Outline.documented : Outline → List Documented
  | .node shape extensions enums nested =>
    ⟨.message, shape.message.path, shape.names.className⟩ ::
      (shape.items.flatMap itemDocumented ++ extensions.map Extension.documented ++
        enums.flatMap EnumShape.documented ++ Outline.documentedAll nested)

/-- The declarations in outlines. -/
def Outline.documentedAll : List Outline → List Documented
  | [] => []
  | o :: r => o.documented ++ Outline.documentedAll r

end

theorem enums_documents (enums : List EnumShape) :
    Documents f (enums.flatMap fun e => enumSteps f e ++ [.blank])
      (enums.flatMap EnumShape.documented) :=
  .flatMap fun e _ => (enumSteps_documents f e).after rfl

mutual

theorem messageSteps_documents (nested : Bool) :
    ∀ o : Outline, Yields AnyImports
      (messageSteps ctx f (if nested then "public static " else "public ") o) fun steps =>
        Documents f steps o.documented
  | .node shape extensions enums classes => by
    unfold messageSteps
    refine (memberSteps_documents ctx f shape extensions).bind fun members hm => ?_
    refine (nestedSteps_documents classes).bind fun inner hc => Yields.pure ?_
    obtain ⟨rest, rfl, hrest⟩ := hm
    have hall := ((hrest.append (enums_documents f enums)).append hc).after
      (b := [.line "\x7d"]) rfl
    apply hall.opened [] shape.message.deprecated (.message nested shape.names.className)
    intro remark
    simp [declared, Passage.lines, Construct.trails, Step.bare]

theorem nestedSteps_documents :
    ∀ os : List Outline, Yields AnyImports (nestedSteps ctx f os) fun steps =>
      Documents f steps (Outline.documentedAll os)
  | [] => Yields.pure (.mute rfl)
  | o :: r => by
    unfold nestedSteps
    refine (messageSteps_documents true o).bind fun steps hs => ?_
    refine (nestedSteps_documents r).bind fun rest hr => Yields.pure ?_
    exact (hs.after rfl).append hr

end

end Messages

section Files

variable {ctx : Context} {file : Nat} {c : Contents}

/-- The declarations in the contents of a file. -/
def Contents.documented (c : Contents) : List Documented :=
  Outline.documentedAll c.messages ++ c.enums.flatMap EnumShape.documented ++
    c.holder.toList.flatMap (·.2.map Extension.documented)

theorem wrapperSteps_documents (ctx : Context) (c : Contents) (wrapper : String) :
    Yields AnyImports (wrapperSteps ctx c wrapper) fun steps =>
      Documents c.file steps c.documented := by
  refine (nestedSteps_documents ctx c.file c.messages).bind fun messages hm => Yields.pure ?_
  have hh : Documents c.file
      (c.holder.toList.flatMap fun p => holderSteps c.file "public static " p.1 p.2)
      (c.holder.toList.flatMap (·.2.map Extension.documented)) :=
    .flatMap fun p _ => holderSteps_documents c.file "public static " p.1 p.2
  have hall := (hm.append (enums_documents c.file c.enums)).append hh
  have hbody := (hall.before (a := [.line ("private " ++ wrapper ++ "() \x7b\x7d"), .blank])
    rfl).body "\x7d"
  refine (hbody.before (a := [.annotated [] "public final class " wrapper " \x7b"])
    rfl).congr fun remark => ?_
  simp [declared, Step.bare]

end Files

end ProtoJava.Bean
