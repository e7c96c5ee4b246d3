import Mathlib.Data.List.ReduceOption
import ProtoJava.Proofs.Bean.Sources
import ProtoJava.Proofs.Java.Programs
import ProtoJava.Proofs.Mapping.Values

/-! # Beans as programs

What is written for a message is read as a program: its unions with their accessors, its fields, the
constants for its defaults and the classes in it, whatever classes have been named before.
-/

namespace ProtoJava.Bean

open Java
open Mapping

/-- The enum that tells which member of a union is set. -/
def caseEnumOf (u : Union) : NumberedEnum :=
  .tabulated u.names.caseEnum
    ((u.variants.map fun v => (v.names.caseConstant, variantNumber v)) ++ [(u.names.notSet, 0)])
    ((u.variants.map fun v => (variantNumber v, v.names.caseConstant)) ++ [(0, u.names.notSet)])
    .null

/-- The class of a member, whose text form shows its value by an expression. -/
def wrapperOf (u : Union) (v : Variant) (type shownPayload : String) : Wrapper where
  name := v.names.wrapper
  iface := u.names.iface
  path := v.member.property.field.path
  type
  field := v.member.names.field
  param := v.member.names.field
  construct := .assign v.member.names.field (.name v.member.names.field)
  tell := {
    type := u.names.caseEnum
    name := u.names.caseGetter
    body := .ret (.constant u.names.caseEnum v.names.caseConstant) }
  shown := Text.quoted (v.names.wrapper ++ "\x7b" ++ v.member.names.field ++ "=") ++ " + " ++
    shownPayload ++ " + \"\x7d\""

def caseGetterOf (u : Union) : Method where
  path := some u.oneof.path
  type := u.names.caseEnum
  name := u.names.caseGetter
  body := .ret (.ifNull (.name u.names.field) (.constant u.names.caseEnum u.names.notSet)
    (.call (.name u.names.field) u.names.caseGetter))

def setterOf (u : Union) (v : Variant) (type : String) : Method where
  type := "void"
  name := v.names.setter
  param := some (type, v.member.names.field)
  body := .assign u.names.field (.new v.names.wrapper (.name v.member.names.field))

def getterOf (u : Union) (v : Variant) (type : String) (fallback : Expr) : Method where
  type
  name := v.names.getter
  body := .ret (.ifInstance (.name u.names.field) v.names.wrapper
    (.field v.names.wrapper (.name u.names.field) v.member.names.field) fallback)

/-- What a getter returns if another member is set. -/
inductive Fallback (ctx : Context) (m : Member) : Expr → Prop
  | constant {c : String} (hc : m.names.defaultConst = some c) :
    Fallback ctx m (if m.property.isBytes then .copy (.name c) else .name c)
  | zero {oneof : Nat} {v : Value} {t : String} (hc : m.names.defaultConst = none)
    (hk : m.property.kind = .variant oneof v) (ht : Zero ctx v t) : Fallback ctx m (.text t)
  | null (hc : m.names.defaultConst = none) (hk : ∀ oneof v, m.property.kind ≠ .variant oneof v) :
    Fallback ctx m .null

/-- A part of the class of a message. -/
inductive Part
  | field (m : Member)
  | caseEnum (u : Union)
  | iface (u : Union)
  | wrapper (u : Union) (v : Variant)
  /-- The field that holds a union. -/
  | holder (u : Union)
  /-- The constant for a number. -/
  | number (m : Member)
  /-- The constant for a default. -/
  | constant (m : Member)
  | extensionNumber (x : Extension)
  | extendee (x : Extension)
  | caseGetter (u : Union)
  | setter (u : Union) (v : Variant)
  | getter (u : Union) (v : Variant)
  | shown
  | nested (name : String)

/-- The declaration that a part becomes. -/
inductive Part.Is (ctx : Context) : Part → Decl → Prop
  | field (m : Member) (path : Schema.Path) (type trail : String) :
    Is ctx (.field m) (.field path type m.names.field trail)
  | caseEnum (u : Union) : Is ctx (.caseEnum u) (.caseEnum (caseEnumOf u))
  | iface (u : Union) :
    Is ctx (.iface u) (.iface u.names.iface u.names.caseEnum u.names.caseGetter)
  | wrapper (u : Union) (v : Variant) (type shownPayload : String) :
    Is ctx (.wrapper u v) (.wrapper (wrapperOf u v type shownPayload))
  | holder (u : Union) : Is ctx (.holder u) (.field u.oneof.path u.names.iface u.names.field ";")
  | number (m : Member) (type value : String) :
    Is ctx (.number m) (.constant { type, name := m.names.numberConst, value })
  | constant {m : Member} {d : Default} {name value : String} (type : String)
    (hc : m.names.defaultConst = some name) (hd : m.property.default = some d)
    (hv : d.Written ctx value) : Is ctx (.constant m) (.constant { type, name, value })
  | extensionNumber (x : Extension) (path : Schema.Path) (type value : String) :
    Is ctx (.extensionNumber x)
      (.constant { path := some path, type, name := x.names.numberConst, value })
  | extendee (x : Extension) (type value : String) :
    Is ctx (.extendee x) (.constant { type, name := x.names.extendeeConst, value })
  | caseGetter (u : Union) : Is ctx (.caseGetter u) (.method (caseGetterOf u))
  | setter (u : Union) (v : Variant) (type : String) :
    Is ctx (.setter u v) (.method (setterOf u v type))
  | getter (u : Union) (v : Variant) (type : String) {fallback : Expr}
    (hf : Fallback ctx v.member fallback) :
    Is ctx (.getter u v) (.method (getterOf u v type fallback))
  | shown (body : List Step) : Is ctx .shown (.shown body)
  | nested (path : Schema.Path) (lead name : String) (body : List Step) :
    Is ctx (.nested name) (.nested path lead name body)

/-- Steps are read as the given parts. -/
def ReadsAs (ctx : Context) (steps : List Step) (parts : List Part) : Prop :=
  ∃ ds, Reads steps ds ∧ List.Forall₂ (Part.Is ctx) parts ds

section Reading

variable {ctx : Context} {a b : List Step} {ps qs : List Part}

theorem ReadsAs.append (ha : ReadsAs ctx a ps) (hb : ReadsAs ctx b qs) :
    ReadsAs ctx (a ++ b) (ps ++ qs) := by
  obtain ⟨ds, hds, hps⟩ := ha
  obtain ⟨es, hes, hqs⟩ := hb
  exact ⟨ds ++ es, hds.append hes, List.rel_append hps hqs⟩

theorem ReadsAs.remarks (h : ∀ s ∈ a, s.isRemark) : ReadsAs ctx a [] :=
  ⟨[], .remarks h, .nil⟩

theorem ReadsAs.remark (s : Step) (h : s.isRemark) : ReadsAs ctx [s] [] :=
  .remarks (List.forall_mem_singleton.mpr h)

theorem ReadsAs.of_is {p : Part} {d : Decl} (h : p.Is ctx d) : ReadsAs ctx d.steps [p] :=
  ⟨[d], .single d, .cons h .nil⟩

theorem ReadsAs.flatten {α : Type} {parts : α → List Part} {l : List α}
    {lists : List (List Step)}
    (h : List.Forall₂ (fun a steps => ReadsAs ctx steps (parts a)) l lists) :
    ReadsAs ctx lists.flatten (l.flatMap parts) := by
  induction h with
  | nil => exact .remarks (List.forall_mem_nil _)
  | cons h _ ih => exact h.append ih

theorem ReadsAs.flatMap {α : Type} {parts : α → List Part} {steps : α → List Step} {l : List α}
    (h : ∀ a ∈ l, ReadsAs ctx (steps a) (parts a)) :
    ReadsAs ctx (l.flatMap steps) (l.flatMap parts) := by
  rw [List.flatMap_def (f := steps)]
  apply ReadsAs.flatten
  rw [List.forall₂_map_right_iff, List.forall₂_same]
  exact h

theorem ReadsAs.of_eq (h : ReadsAs ctx a ps) (hq : ps = qs) : ReadsAs ctx a qs :=
  hq ▸ h

end Reading

section Snippets

variable (ctx : Context)

theorem reads_comment (text : Option String) : ReadsAs ctx (commentSteps text) [] := by
  cases text with
  | none => exact .remarks (List.forall_mem_nil _)
  | some text => exact .remark _ rfl

theorem reads_leading (f : Schema.File) (path : Schema.Path) : ReadsAs ctx (leading f path) [] :=
  reads_comment ctx _

theorem reads_trailing (f : Schema.File) (path : Schema.Path) :
    ReadsAs ctx (trailing f path) [] :=
  reads_comment ctx _

theorem reads_note (text : String) : ReadsAs ctx [.line ("// " ++ text)] [] :=
  .remark _ (by simp [Step.isRemark])

theorem reads_deprecatedMark (deprecated : Bool) :
    ReadsAs ctx (deprecatedMark deprecated) [] := by
  cases deprecated with
  | false => exact .remarks (List.forall_mem_nil _)
  | true => exact .remark _ rfl

/-- What stands before the declaration of a field. -/
theorem reads_heading (f : Schema.File) (p : Property) :
    ReadsAs ctx (leading f p.field.path ++ [.line ("// " ++ p.describe f.dialect)] ++
      deprecatedMark p.field.deprecated) [] :=
  ((reads_leading ctx f p.field.path).append (reads_note ctx (p.describe f.dialect))).append
    (reads_deprecatedMark ctx p.field.deprecated)

end Snippets

/-- The parts of an item, its accessors apart. -/
def itemParts : Item → List Part
  | .field m => [.field m]
  | .union u => [.caseEnum u, .iface u] ++ u.variants.map (.wrapper u) ++ [.holder u]

/-- The parts of a union that are methods of the class that holds it. -/
def accessorParts (u : Union) : List Part :=
  .caseGetter u :: u.variants.flatMap fun v => [.setter u v, .getter u v]

/-- The constant for a default, if there is a value for it. -/
def constantParts (m : Member) : List Part :=
  if m.names.defaultConst.isSome && m.property.value?.isSome && m.property.default.isSome then
    [.constant m]
  else []

section Unions

variable (ctx : Context) (f : Schema.File) (u : Union)

theorem constantLines_append (l : List (String × Int)) (x : String × Int) :
    constantLines (l ++ [x]) =
      l.map (fun c => .line (c.1 ++ "(" ++ toString c.2 ++ "),")) ++
        [.line (x.1 ++ "(" ++ toString x.2 ++ ");")] := by
  induction l with
  | nil => rfl
  | cons c l ih =>
    rw [List.cons_append, List.map_cons, List.cons_append, ← ih]
    cases l <;> rfl

theorem caseEnumStep_eq : caseEnumStep u = (caseEnumOf u).caseStep := by
  have hzero : Int.repr 0 = "0" := rfl
  have hconstants : caseConstantSteps u = constantLines (caseEnumOf u).constants := by
    simp [caseConstantSteps, caseEnumOf, NumberedEnum.tabulated, constantLines_append, hzero,
      String.append_assoc]
  rw [NumberedEnum.caseStep, ← hconstants, caseEnumOf, NumberedEnum.members_tabulated]
  simp [caseEnumStep, braced, forNumberMethod, NumberedEnum.tabulated, Expr.source, hzero]

theorem wrapperStep_eq (v : Variant) (type shownPayload : String) :
    wrapperStep u v type shownPayload = (wrapperOf u v type shownPayload).step := by
  simp [wrapperStep, Wrapper.step, wrapperOf, Method.steps, Method.params, Stmt.source, Expr.source,
    braced, String.append_assoc]

theorem variantSteps_reads (v : Variant) :
    Yields AnyImports (variantSteps ctx f u v) fun steps => ReadsAs ctx steps [.wrapper u v] := by
  apply (Yields.trivial _).bind
  intro type _
  apply (Yields.trivial _).bind
  intro payload _
  apply Yields.pure
  have hwrapper : ReadsAs ctx [wrapperStep u v type payload] [.wrapper u v] := by
    rw [wrapperStep_eq]
    exact .of_is (.wrapper u v type payload)
  exact (reads_heading ctx f v.member.property).append (hwrapper.append (.remark .blank rfl))

theorem unionSteps_reads :
    Yields AnyImports (unionSteps ctx f u) fun steps =>
      ReadsAs ctx steps (itemParts (.union u)) := by
  apply (Yields.mapM fun v _ => variantSteps_reads ctx f u v).bind
  intro variants h
  apply Yields.pure
  have henum : ReadsAs ctx [caseEnumStep u] [.caseEnum u] := by
    rw [caseEnumStep_eq]
    exact .of_is (.caseEnum u)
  have hiface : ReadsAs ctx [ifaceStep u] [.iface u] := .of_is (.iface u)
  have hholder : ReadsAs ctx
      [.annotated u.oneof.path ("public " ++ u.names.iface ++ " ") u.names.field ";"]
      [.holder u] := .of_is (.holder u)
  have hblank : ReadsAs ctx [.blank] [] := .remark .blank rfl
  have htypes := henum.append (hblank.append (hiface.append hblank))
  have hvariants := ((reads_leading ctx f u.oneof.path).append htypes).append (ReadsAs.flatten h)
  exact (hvariants.append hholder).of_eq (by simp [itemParts, List.map_eq_flatMap])

theorem fallback_yields (m : Member) :
    Yields AnyImports (m.property.fallback ctx m.names.defaultConst) fun text =>
      ∃ e, Fallback ctx m e ∧ e.source = text := by
  cases hc : m.names.defaultConst with
  | some c =>
    refine Yields.pure ⟨_, .constant hc, ?_⟩
    rw [Property.ofConstant]
    split <;> rfl
  | none =>
    rw [Property.fallback]
    split
    · next oneof payload hk =>
      exact fun i hi => ⟨⟨_, .zero hc hk (payload.zero_yields ctx i hi).1, rfl⟩, trivial⟩
    · next hk => exact Yields.pure ⟨_, .null hc hk, rfl⟩

theorem setterOf_steps (v : Variant) (type : String) : (setterOf u v type).steps =
    [braced ("public void " ++ v.names.setter ++ "(" ++ type ++ " " ++ v.member.names.field ++ ")")
      [.line ("this." ++ u.names.field ++ " = new " ++ v.names.wrapper ++ "(" ++
        v.member.names.field ++ ");")]] := by
  rw [show " = new " = " = " ++ "new " from rfl, show ");" = ")" ++ ";" from rfl,
    show "public void " = "public " ++ "void" ++ " " from rfl]
  simp only [setterOf, Method.steps, Method.params, Stmt.source, Expr.source, braced,
    String.append_assoc]

theorem getterOf_steps (v : Variant) (type : String) (fallback : Expr) :
    (getterOf u v type fallback).steps =
      [braced ("public " ++ type ++ " " ++ v.names.getter ++ "()")
        [.line ("return " ++ u.names.field ++ " instanceof " ++ v.names.wrapper ++ " ? ((" ++
          v.names.wrapper ++ ") " ++ u.names.field ++ ")." ++ v.member.names.field ++ " : " ++
          fallback.source ++ ";")]] := by
  rw [show " ? ((" = " ? " ++ "((" from rfl]
  simp only [getterOf, Method.steps, Method.params, Stmt.source, Expr.source, braced,
    String.append_assoc]

theorem accessorSteps_reads (v : Variant) :
    Yields AnyImports (accessorSteps ctx u v) fun steps =>
      ReadsAs ctx steps [.setter u v, .getter u v] := by
  apply (Yields.trivial _).bind
  intro type _
  apply (fallback_yields ctx v.member).bind
  rintro _ ⟨e, he, rfl⟩
  have hsetter : ReadsAs ctx (setterOf u v type).steps [.setter u v] := .of_is (.setter u v type)
  have hgetter : ReadsAs ctx (getterOf u v type e).steps [.getter u v] :=
    .of_is (.getter u v type he)
  rw [setterOf_steps] at hsetter
  rw [getterOf_steps] at hgetter
  have hblank : ReadsAs ctx [.blank] [] := .remark .blank rfl
  exact Yields.pure ((hsetter.append hblank).append (hgetter.append hblank))

theorem unionAccessorSteps_reads :
    Yields AnyImports (unionAccessorSteps ctx u) fun steps =>
      ReadsAs ctx steps (accessorParts u) := by
  apply (Yields.mapM fun v _ => accessorSteps_reads ctx u v).bind
  intro accessors h
  have hgetter : ReadsAs ctx (caseGetterOf u).steps [.caseGetter u] := .of_is (.caseGetter u)
  have hall := (hgetter.append (.remark .blank rfl)).append (ReadsAs.flatten h)
  apply Yields.pure
  simpa [Method.steps, caseGetterOf, Method.params, Stmt.source, Expr.source, accessorParts,
    declared, String.append_assoc] using hall

end Unions

section Members

variable (ctx : Context) (f : Schema.File)

theorem fieldSteps_reads (m : Member) :
    Yields AnyImports (fieldSteps ctx f m) fun steps => ReadsAs ctx steps [.field m] := by
  apply (Yields.trivial _).bind
  intro type _
  apply (Yields.trivial _).bind
  intro initial _
  apply Yields.pure
  exact ((reads_heading ctx f m.property).append (.of_is (.field m _ type _))).append
    (reads_trailing ctx f _)

theorem itemSteps_reads (item : Item) :
    Yields AnyImports (itemSteps ctx f item) fun steps => ReadsAs ctx steps (itemParts item) := by
  have hblank : ReadsAs ctx [.blank] [] := .remark .blank rfl
  cases item with
  | field m => exact (fieldSteps_reads ctx f m).bind fun steps h => Yields.pure (h.append hblank)
  | union u =>
    apply (unionSteps_reads ctx f u).bind
    intro steps h
    apply Yields.pure
    exact (h.append hblank).of_eq (List.append_nil _)

theorem defaultSteps_reads (m : Member) :
    Yields AnyImports (defaultSteps ctx m) fun steps => ReadsAs ctx steps (constantParts m) := by
  have hnone : ReadsAs ctx [] [] := .remarks (List.forall_mem_nil _)
  rw [defaultSteps, constantParts]
  split
  · next name value hc hv =>
    apply (m.property.defaultValue_yields ctx).bind
    intro literal hl
    generalize hd : m.property.default = explicit at hl
    cases hl with
    | some hl =>
      apply (Yields.trivial _).bind
      intro type _
      apply Yields.pure
      rw [if_pos (by simp [hc, hv])]
      exact .of_is (.constant type hc hd hl)
    | none =>
      rw [if_neg (by simp)]
      exact Yields.pure hnone
  · next h =>
    rw [if_neg]
    · exact Yields.pure hnone
    · simp only [Bool.and_eq_true, Option.isSome_iff_exists]
      rintro ⟨⟨⟨name, hc⟩, value, hv⟩, -⟩
      exact h name value hc hv

theorem toStringSteps_reads (className : String) (parts : List (String × String)) :
    ReadsAs ctx (toStringSteps className parts) [.shown] :=
  (ReadsAs.remark (.line "@Override") rfl).append (.of_is (.shown _))

/-- The parts of an extension. -/
def extensionParts (x : Extension) : List Part :=
  [.extensionNumber x, .extendee x]

theorem reads_extensionSteps (x : Extension) :
    ReadsAs ctx (extensionSteps f x) (extensionParts x) := by
  have hnote : ReadsAs ctx [.line ("// extend " ++ plainName x.target ++ " \x7b " ++
      x.property.describe f.dialect ++ " \x7d")] [] :=
    .remark _ (by simp [Step.isRemark])
  have hnumber : ReadsAs ctx _ [.extensionNumber x] := .of_is
    (.extensionNumber x x.property.field.path "int" (toString x.property.field.number))
  have hextendee : ReadsAs ctx _ [.extendee x] := .of_is
    (.extendee x "String" (Text.quoted (plainName x.target)))
  have hblank : ReadsAs ctx [.blank] [] := .remark .blank rfl
  have hall := (((reads_leading ctx f x.property.field.path).append hnote).append
    hnumber).append (hextendee.append hblank)
  simpa [extensionSteps, Decl.steps, Constant.step, extensionParts, String.append_assoc] using hall

theorem reads_rangeStep (range : Int × Int) : ReadsAs ctx [rangeStep range] [] := by
  apply ReadsAs.remark
  simp only [rangeStep]
  split
  · simp [Step.isRemark]
  · split <;> simp [Step.isRemark]

theorem reads_enumSteps (e : EnumShape) :
    ReadsAs ctx (enumSteps f e ++ [.blank]) [.nested e.names.className] := by
  have hlines := (reads_leading ctx f e.type.path).append
    (reads_deprecatedMark ctx e.type.deprecated)
  exact (hlines.append (.of_is (.nested e.type.path "public enum " e.names.className _))).append
    (.remark .blank rfl)

theorem reads_numberStep (m : Member) : ReadsAs ctx [numberStep m] [.number m] :=
  .of_is (.number m "int" (toString m.property.field.number))

/-- The parts of a class before the classes declared in it. -/
def memberParts (s : Shape) (extensions : List Extension) : List Part :=
  s.items.flatMap itemParts ++ s.members.map .number ++ s.members.flatMap constantParts ++
    extensions.flatMap extensionParts ++ s.unions.reduceOption.flatMap accessorParts ++ [.shown]

theorem memberSteps_reads (s : Shape) (extensions : List Extension) :
    Yields AnyImports (memberSteps ctx f s extensions) fun steps =>
      ReadsAs ctx steps (memberParts s extensions) := by
  apply (Yields.mapM fun i _ => itemSteps_reads ctx f i).bind
  intro items hi
  apply (Yields.mapM fun m _ => defaultSteps_reads ctx m).bind
  intro defaults hd
  apply (Yields.mapM fun u _ => unionAccessorSteps_reads ctx u).bind
  intro accessors ha
  apply (Yields.trivial _).bind
  intro parts _
  apply Yields.pure
  have hblank : ReadsAs ctx [.blank] [] := .remark .blank rfl
  have hnumbers : ReadsAs ctx (s.members.map numberStep) (s.members.map .number) := by
    rw [List.map_eq_flatMap, List.map_eq_flatMap]
    exact .flatMap fun m _ => reads_numberStep ctx m
  have hextensions : ReadsAs ctx (extensions.flatMap (extensionSteps f))
      (extensions.flatMap extensionParts) := .flatMap fun x _ => reads_extensionSteps ctx f x
  have hranges : ReadsAs ctx (s.message.extensionRanges.map rangeStep) [] := by
    rw [List.map_eq_flatMap]
    exact (ReadsAs.flatMap fun range _ => reads_rangeStep ctx range).of_eq (by simp)
  have hall := (((((((((reads_trailing ctx f s.message.path).append (ReadsAs.flatten hi)).append
    hnumbers).append (ReadsAs.flatten hd)).append hblank).append hextensions).append
    hranges).append hblank).append (ReadsAs.flatten ha)).append
    (toStringSteps_reads ctx s.names.className parts)
  exact (hall.append hblank).of_eq (by simp [memberParts, List.reduceOption])

end Members

/-- The parts of the class of an outline. -/
def Outline.parts : Outline → List Part
  | .node s extensions enums nested =>
    memberParts s extensions ++ enums.map (fun e => .nested e.names.className) ++
      nested.map fun o => .nested o.className

def Outline.path : Outline → Schema.Path
  | .node s _ _ _ => s.message.path

/-- An outline is another one, or in it. -/
inductive Outline.Inside (o : Outline) : Outline → Prop
  | self : Inside o o
  | nested {s : Shape} {extensions : List Extension} {enums : List EnumShape}
    {nested : List Outline} {n : Outline} (hn : n ∈ nested) (h : Inside o n) :
    Inside o (.node s extensions enums nested)

/-- Steps that enclose the class of an outline, with its parts in it. -/
def Holds (ctx : Context) (steps : List Step) (o : Outline) : Prop :=
  ∃ lead body, Encloses (declared o.path lead o.className "" body) steps ∧
    ReadsAs ctx body o.parts

/-- Whatever has been named before, what is written encloses what `part` writes, with some imports.
-/
def Contains (part whole : Referring (List Step)) : Prop :=
  Yields AnyImports whole fun steps => ∃ i, Encloses (part.run i).1 steps

namespace Contains

variable {part x y : Referring (List Step)}

theorem self (x : Referring (List Step)) : Contains x x :=
  fun i _ => ⟨⟨i, .self _⟩, trivial⟩

theorem trans (h : Contains part x) (h' : Contains x y) : Contains part y := by
  intro i hi
  obtain ⟨j, hj⟩ := (h' i hi).1
  obtain ⟨k, hk⟩ := (h j trivial).1
  exact ⟨⟨k, hk.trans hj⟩, trivial⟩

end Contains

section Outlines

variable (ctx : Context) (f : Schema.File) {part : Referring (List Step)}

theorem nestedSteps_contain {o : Outline} {os : List Outline} (h : o ∈ os) :
    Contains (messageSteps ctx f "public static " o) (nestedSteps ctx f os) := by
  induction os with
  | nil => exact absurd h List.not_mem_nil
  | cons o' r ih =>
    unfold nestedSteps
    rcases List.mem_cons.mp h with rfl | h
    · apply (Contains.self _).bind
      rintro steps ⟨i, hi⟩
      apply (Yields.trivial _).bind
      intro rest _
      exact Yields.pure ⟨i, (hi.append [.blank]).append rest⟩
    · apply (Yields.trivial _).bind
      intro steps _
      apply (ih h).bind
      rintro rest ⟨i, hi⟩
      exact Yields.pure ⟨i, hi.prepend (steps ++ [.blank])⟩

/-- The class of a message contains what the classes in it contain. -/
theorem Contains.message {nested : List Outline} (h : Contains part (nestedSteps ctx f nested))
    (modifiers : String) (shape : Shape) (extensions : List Extension) (enums : List EnumShape) :
    Contains part (messageSteps ctx f modifiers (.node shape extensions enums nested)) := by
  rw [messageSteps]
  apply (Yields.trivial _).bind
  intro members _
  apply h.bind
  rintro classes ⟨i, hi⟩
  have hbody := hi.prepend (members ++ enums.flatMap fun e => enumSteps f e ++ [.blank])
  exact Yields.pure ⟨i, (hbody.declared _ _ _ _).prepend _⟩

/-- The class of an outline contains the classes of all outlines in it. -/
theorem messageSteps_contain {o top : Outline} (h : o.Inside top) (modifiers : String) :
    ∃ m, Contains (messageSteps ctx f m o) (messageSteps ctx f modifiers top) := by
  induction h generalizing modifiers with
  | self => exact ⟨modifiers, .self _⟩
  | nested hn _ ih =>
    obtain ⟨m, hm⟩ := ih "public static "
    exact ⟨m, (hm.trans (nestedSteps_contain ctx f hn)).message ctx f modifiers _ _ _⟩

/-- Steps for enums enclose those for each of them. -/
theorem enumsSteps_enclose {es : List EnumShape} {e : EnumShape} (h : e ∈ es) :
    Encloses (enumSteps f e) (es.flatMap fun e => enumSteps f e ++ [.blank]) := by
  obtain ⟨before, after, rfl⟩ := List.append_of_mem h
  rw [List.flatMap_append, List.flatMap_cons]
  exact (((Encloses.self _).append _).append _).prepend _

/-- The class of everything in a file contains what the classes of its messages contain. -/
theorem Contains.wrapper {c : Contents} (h : Contains part (nestedSteps ctx c.file c.messages))
    (wrapper : String) : Contains part (wrapperSteps ctx c wrapper) := by
  apply h.bind
  rintro messages ⟨i, hi⟩
  exact Yields.pure ⟨i, (((hi.prepend _).append _).append _).declared _ _ _ _⟩

theorem wrapperSteps_contain_enum {c : Contents} {e : EnumShape} (h : e ∈ c.enums)
    (wrapper : String) : Contains (pure (enumSteps c.file e)) (wrapperSteps ctx c wrapper) := by
  apply (Yields.trivial _).bind
  intro messages _
  have henum := ((enumsSteps_enclose c.file h).prepend
    ([.line ("private " ++ wrapper ++ "() \x7b\x7d"), .blank] ++ messages)).append
      (c.holder.toList.flatMap fun holder =>
        holderSteps c.file "public static " holder.1 holder.2)
  exact Yields.pure ⟨{ package := c.package }, henum.declared _ _ _ _⟩

/-- The class of an outline, among what stands around it. -/
theorem messageSteps_reads (modifiers : String) (o : Outline) :
    Yields AnyImports (messageSteps ctx f modifiers o) fun steps =>
      ReadsAs ctx steps [.nested o.className] := by
  obtain ⟨shape, extensions, enums, nested⟩ := o
  rw [messageSteps]
  apply (Yields.trivial _).bind
  intro members _
  apply (Yields.trivial _).bind
  intro classes _
  apply Yields.pure
  have hlines := (reads_leading ctx f shape.message.path).append
    (reads_deprecatedMark ctx shape.message.deprecated)
  exact hlines.append (.of_is (.nested shape.message.path (modifiers ++ "class ")
    shape.names.className _))

theorem nestedSteps_reads (os : List Outline) :
    Yields AnyImports (nestedSteps ctx f os) fun steps =>
      ReadsAs ctx steps (os.map fun o => .nested o.className) := by
  induction os with
  | nil => exact Yields.pure (.remarks (List.forall_mem_nil _))
  | cons o r ih =>
    unfold nestedSteps
    apply (messageSteps_reads ctx f "public static " o).bind
    intro steps hs
    apply ih.bind
    intro rest hr
    exact Yields.pure ((hs.append (.remark .blank rfl)).append hr)

/-- The class of an outline has its parts. -/
theorem messageSteps_holds (modifiers : String) (o : Outline) :
    Yields AnyImports (messageSteps ctx f modifiers o) fun steps => Holds ctx steps o := by
  obtain ⟨shape, extensions, enums, nested⟩ := o
  rw [messageSteps]
  apply (memberSteps_reads ctx f shape extensions).bind
  intro members hm
  apply (nestedSteps_reads ctx f nested).bind
  intro classes hread
  apply Yields.pure
  have henums : ReadsAs ctx (enums.flatMap fun e => enumSteps f e ++ [.blank])
      (enums.map fun e => .nested e.names.className) :=
    (ReadsAs.flatMap fun e _ => reads_enumSteps ctx f e).of_eq List.map_eq_flatMap.symm
  exact ⟨modifiers ++ "class ", _, (Encloses.self _).prepend _, (hm.append henums).append hread⟩

end Outlines

section Files

variable {ctx : Context} {file : Nat}

/-- What is written for a message of a file, or for one in it, is contained in one of the drafts. -/
theorem Contents.exists_draft_of_inside (c : Contents) (wrapper : Option String) {o top : Outline}
    (htop : top ∈ c.messages) (h : o.Inside top) :
    ∃ d ∈ c.drafts ctx wrapper, ∃ m, Contains (messageSteps ctx c.file m o) d.steps := by
  cases wrapper with
  | none =>
    refine ⟨_, List.mem_append_left _ (List.mem_append_left _ (List.mem_map_of_mem htop)), ?_⟩
    exact messageSteps_contain ctx c.file h "public "
  | some wrapper =>
    obtain ⟨m, hm⟩ := messageSteps_contain ctx c.file h "public static "
    rw [Contents.drafts, if_neg (by simp [List.ne_nil_of_mem htop])]
    refine ⟨_, List.mem_singleton_self _, m, ?_⟩
    exact (hm.trans (nestedSteps_contain ctx c.file htop)).wrapper ctx wrapper

theorem Contents.exists_draft_of_enum (c : Contents) (wrapper : Option String) {e : EnumShape}
    (he : e ∈ c.enums) :
    ∃ d ∈ c.drafts ctx wrapper, Contains (pure (enumSteps c.file e)) d.steps := by
  cases wrapper with
  | none =>
    refine ⟨_, List.mem_append_left _ (List.mem_append_right _ (List.mem_map_of_mem he)), ?_⟩
    exact .self _
  | some wrapper =>
    rw [Contents.drafts, if_neg (by simp [List.ne_nil_of_mem he])]
    exact ⟨_, List.mem_singleton_self _, wrapperSteps_contain_enum ctx he wrapper⟩

/-- A source file with what a text writes in it, with some imports. -/
def SourceContains (a : Artifact) (part : Referring (List Step)) : Prop :=
  ∃ i, a.Has (part.run i).1

theorem Contains.source {part : Referring (List Step)} {d : Draft} (h : Contains part d.steps)
    (c : Contents) (hs : Yields AnyImports d.steps SoundAll) :
    SourceContains (sourceFile c d.className d.nested d.steps) part := by
  obtain ⟨⟨i, hi⟩, -⟩ := h ⟨c.package, [d.className], d.nested, []⟩ trivial
  exact ⟨i, _, _, Draft.bareLines_sourceFile c hs, hi⟩

/-- What is written for the messages and the enums of a file is contained in its source files. -/
theorem beans_contain {as : List Artifact} (h : beans ctx file = .ok as) :
    ∃ c, Contents.of ctx file = .ok c ∧
      (∀ top ∈ c.messages, ∀ o, o.Inside top →
        ∃ a ∈ as, ∃ m, SourceContains a (messageSteps ctx c.file m o)) ∧
      ∀ e ∈ c.enums, ∃ a ∈ as, SourceContains a (pure (enumSteps c.file e)) := by
  rw [beans_eq_drafts] at h
  obtain ⟨c, hc, rfl⟩ := map_eq_ok_iff.mp h
  have hsound := c.drafts_sound ctx (ctx.names.file file).wrapperClass
  refine ⟨c, hc, fun top htop o ho => ?_, fun e he => ?_⟩
  · obtain ⟨d, hd, m, hm⟩ := c.exists_draft_of_inside _ htop ho
    exact ⟨_, List.mem_map_of_mem hd, m, hm.source c (hsound d hd)⟩
  · obtain ⟨d, hd, he⟩ := c.exists_draft_of_enum _ he
    exact ⟨_, List.mem_map_of_mem hd, he.source c (hsound d hd)⟩

/-- A source file that has the class of an outline, with its parts in it. -/
def SourceHolds (ctx : Context) (a : Artifact) (o : Outline) : Prop :=
  ∃ lead body, a.Has (declared o.path lead o.className "" body) ∧ ReadsAs ctx body o.parts

/-- Every message of a file has its class in one of the source files. -/
theorem beans_hold {as : List Artifact} (h : beans ctx file = .ok as) :
    ∃ c, Contents.of ctx file = .ok c ∧
      ∀ o ∈ c.messages, ∀ o', o'.Inside o → ∃ a ∈ as, SourceHolds ctx a o' := by
  obtain ⟨c, hc, hmessages, -⟩ := beans_contain h
  refine ⟨c, hc, fun o ho o' ho' => ?_⟩
  obtain ⟨a, ha, m, i, hcontains⟩ := hmessages o ho o' ho'
  obtain ⟨lead, body, hbody, hread⟩ := (messageSteps_holds ctx c.file m o' i trivial).1
  exact ⟨a, ha, lead, body, hcontains.of_encloses hbody, hread⟩

end Files

end ProtoJava.Bean
