import ProtoJava.Proofs.Bean.Declarations
import ProtoJava.Proofs.Bean.Scopes
import ProtoJava.Proofs.Bean.Unions

/-! # Tagged unions

A oneof is a tagged union in the class of its message: an enum of its cases, a class for each
member, and accessors that agree. After a setter the getter of the case tells its member, the getter
of the member returns what was set, and those of all other members return what is unset.
-/

namespace ProtoJava.Bean

open Java
open Mapping
open Naming (MessageNames unionMembers inhabitedUnions hasDefaultConst)
open Schema (Message Field Oneof)

/-- What the getter of a member of a union returns while another one is set: the value of the
constant for its default, or the zero value of its type. -/
inductive Unset (ctx : Context) (m : Message) (n : MessageNames) (p : Program) (f : Field) :
    Datum → Prop
  | default {property : Property} {d : Default} {type c value : String} (hd : hasDefaultConst f)
    (hc : (n.field f).defaultConst = some c)
    (hp : p.named Decl.variableName c = some (.constant { type, name := c, value }))
    (hm : ctx.classify (some m) f = .ok property) (hv : property.default = some d)
    (ht : d.Written ctx value) : Unset ctx m n p f (.text value)
  | zero {v : Value} {text : String} (hd : hasDefaultConst f = false) (hv : ctx.value f = .ok v)
    (ht : Zero ctx v text) : Unset ctx m n p f (.text text)

/-- A class in which a oneof of a message is a tagged union. -/
structure TaggedUnion (ctx : Context) (m : Message) (n : MessageNames) (p : Program) (o : Oneof) :
    Prop where
  /-- The case enum has a constant for each member in order, and one for no member. -/
  caseEnum : ∃ e, p.named Decl.typeName (n.union o).caseEnum = some (.caseEnum e) ∧
    e.Numbers ((unionMembers m o).map (fun f => (((n.union o).variant f).caseConstant, f.number)) ++
      [((n.union o).notSet, 0)])
  /-- There is one class for each member. -/
  wrappers : (p.filterMap (Decl.implementing (n.union o).iface)).Perm
    ((unionMembers m o).map fun f => ((n.union o).variant f).wrapper)
  /-- The class of a member tells its case. -/
  wrapper : ∀ f ∈ unionMembers m o, ∃ w,
    p.named Decl.typeName ((n.union o).variant f).wrapper = some (.wrapper w) ∧
      w.iface = (n.union o).iface ∧
      ∀ v, p.ask (.object w.name w.field v) (n.union o).caseGetter =
        some (.constant (n.union o).caseEnum ((n.union o).variant f).caseConstant)
  /-- The setter of a member stores a new object of its class. -/
  setter : ∀ f ∈ unionMembers m o, ∃ method type x,
    p.named Decl.methodName ((n.union o).variant f).setter = some (.method method) ∧
      method.param = some (type, x) ∧
      method.body = .assign (n.union o).field (.new ((n.union o).variant f).wrapper (.name x))
  /-- The getter of a member tests for its class and casts to it. -/
  getter : ∀ f ∈ unionMembers m o, ∃ method x fallback,
    p.named Decl.methodName ((n.union o).variant f).getter = some (.method method) ∧
      method.param = none ∧
      method.body = .ret (.ifInstance (.name (n.union o).field) ((n.union o).variant f).wrapper
        (.field ((n.union o).variant f).wrapper (.name (n.union o).field) x) fallback)
  /-- Without a member that is set, the case is the one for no member. -/
  get_null : ∀ fields : String → Datum, fields (n.union o).field = .null →
    p.get fields (n.union o).caseGetter =
      some (.constant (n.union o).caseEnum (n.union o).notSet)
  /-- Whatever the fields are, all getters are right after a setter. -/
  get_set : ∀ f ∈ unionMembers m o, ∀ (fields : String → Datum) (v : Datum), ∃ fields',
    p.set fields ((n.union o).variant f).setter v = some fields' ∧
      p.get fields' (n.union o).caseGetter =
        some (.constant (n.union o).caseEnum ((n.union o).variant f).caseConstant) ∧
      p.get fields' ((n.union o).variant f).getter = some v ∧
      ∀ f' ∈ unionMembers m o, f' ≠ f → ∃ d,
        p.get fields' ((n.union o).variant f').getter = some d ∧ Unset ctx m n p f' d

namespace TaggedUnion

variable {ctx : Context} {m : Message} {n : MessageNames} {p : Program} {o : Oneof}
  (h : TaggedUnion ctx m n p o)

include h

theorem caseEnum_mem : (n.union o).caseEnum ∈ p.filterMap Decl.typeName := by
  obtain ⟨e, he, -⟩ := h.caseEnum
  exact mem_filterMap_of_only he

/-- The constants for defaults are declared beside other members. -/
theorem default_mem {f f' : Field} (hf : f ∈ unionMembers m o) (hf' : f' ∈ unionMembers m o)
    (hne : f' ≠ f) (hd : hasDefaultConst f') {c : String}
    (hc : (n.field f').defaultConst = some c) : c ∈ p.filterMap Decl.variableName := by
  obtain ⟨_, -, -, -, hothers⟩ := h.get_set f hf (fun _ => .null) .null
  obtain ⟨d, -, hunset⟩ := hothers f' hf' hne
  cases hunset with
  | default _ hc' hp =>
    obtain rfl := Option.some.inj (hc.symm.trans hc')
    exact mem_filterMap_of_only hp
  | zero hd' => simp [hd'] at hd

end TaggedUnion

/-- The member of a union that a field becomes. -/
def variantOf (s : Shape) (n : MessageNames) (o : Oneof) (f : Field) : Variant :=
  ⟨(n.union o).variant f, s.member f⟩

/-- The class of a message as a program, with its parts and the classes in it. -/
structure Represents (ctx : Context) (s : Shape) (xs : List Extension) (m : Message)
    (n : MessageNames) (p : Program) : Prop where
  numbered : m.Numbered
  resolved : s.Resolved ctx.toScope m n
  fits : n.Fits m
  names : n.Scoped m
  extendees : ∀ f ∈ m.fields, m.union? f ≠ none → f.extendee = none
  extensions : (xs.map (·.names)).Sublist n.extensions
  parts : ∃ classes : List String,
    List.Forall₂ (Part.Is ctx) (memberParts s xs ++ classes.map .nested) p ∧
      (n.unions.reduceOption.flatMap unionClassNames ++ classes).Nodup

namespace Represents

variable {ctx : Context} {s : Shape} {xs : List Extension} {m : Message} {n : MessageNames}
  {p : Program} (h : Represents ctx s xs m n p) {part : Part} {x : String}

include h

theorem types_nodup : (n.unions.reduceOption.flatMap unionClassNames).Nodup := by
  obtain ⟨classes, -, hd⟩ := h.parts
  exact hd.sublist (List.sublist_append_left _ _)

theorem type_named (hp : part ∈ memberParts s xs) (hx : part.typeName = some x) :
    ∃ d, p.named Decl.typeName x = some d ∧ part.Is ctx d := by
  obtain ⟨classes, hparts, hd⟩ := h.parts
  apply Part.named hparts Part.Is.typeName_eq (List.mem_append_left _ hp) hx
  have hclasses : (classes.map Part.nested).filterMap Part.typeName = classes := by
    rw [List.filterMap_map]
    exact List.filterMap_some
  have hsub := typeNames_subperm h.numbered h.resolved h.fits h.extendees xs
  have hmem : x ∈ (memberParts s xs).filterMap Part.typeName :=
    List.mem_filterMap.mpr ⟨part, hp, hx⟩
  rw [List.filterMap_append, hclasses]
  exact count_eq_one_of_subperm (hsub.append (.refl _)) hd (List.mem_append_left _ hmem)

theorem variable_named (hp : part ∈ memberParts s xs) (hx : part.variableName = some x) :
    ∃ d, p.named Decl.variableName x = some d ∧ part.Is ctx d := by
  obtain ⟨classes, hparts, -⟩ := h.parts
  apply Part.named hparts Part.Is.variableName_eq (List.mem_append_left _ hp) hx
  have hclasses : (classes.map Part.nested).filterMap Part.variableName = [] := by
    simp [List.filterMap_map, Part.variableName]
  have hsub := variableNames_subperm h.numbered h.resolved h.fits h.extendees h.extensions
  rw [List.filterMap_append, hclasses, List.append_nil]
  exact count_eq_one_of_subperm hsub h.names.identifiers.1 (List.mem_filterMap.mpr ⟨part, hp, hx⟩)

variable {o : Oneof} (ho : o ∈ inhabitedUnions m)

include ho

theorem mem_itemParts (hp : part ∈ itemParts (.union (s.union o))) : part ∈ memberParts s xs := by
  have hperm := items_flatMap_perm h.numbered h.resolved h.fits h.extendees itemParts
  have hmem : part ∈ (inhabitedUnions m).flatMap fun o => itemParts (.union (s.union o)) :=
    List.mem_flatMap.mpr ⟨o, ho, hp⟩
  have hitem := hperm.mem_iff.mpr (List.mem_append_right _ hmem)
  simp only [memberParts, List.mem_append]
  exact Or.inl (Or.inl (Or.inl (Or.inl (Or.inl hitem))))

theorem mem_accessorParts (hp : part ∈ accessorParts (s.union o)) : part ∈ memberParts s xs := by
  obtain ⟨ho, hreal, -⟩ := Naming.mem_inhabitedUnions_iff.mp ho
  have hunion : s.union o ∈ s.unions.reduceOption := by
    rw [unions_eq h.resolved]
    exact List.mem_map_of_mem (List.mem_filter.mpr ⟨ho, by simp [hreal]⟩)
  simp only [memberParts, List.mem_append]
  exact Or.inl (Or.inr (List.mem_flatMap.mpr ⟨_, hunion, hp⟩))

theorem method_named (hp : part ∈ accessorParts (s.union o)) (hx : part.methodName = some x) :
    ∃ d, p.named Decl.methodName x = some d ∧ part.Is ctx d := by
  obtain ⟨hmem, hreal, -⟩ := Naming.mem_inhabitedUnions_iff.mp ho
  obtain ⟨classes, hparts, -⟩ := h.parts
  apply Part.named hparts Part.Is.methodName_eq
    (List.mem_append_left _ (h.mem_accessorParts ho hp)) hx
  have hclasses : (classes.map Part.nested).filterMap Part.methodName = [] := by
    simp [List.filterMap_map, Part.methodName]
  have hmethod : x ∈ (n.union o).methods := by
    rw [← methodNames_eq h.numbered h.resolved h.fits hmem hreal]
    exact List.mem_filterMap.mpr ⟨part, hp, hx⟩
  rw [List.filterMap_append, hclasses, List.append_nil]
  exact count_methodNames h.numbered h.resolved h.fits h.names ho hmethod xs

/-- A union stands in the class of its message. -/
theorem stands : Stands ctx (s.union o) p := by
  constructor
  case caseEnum =>
    have hp : .caseEnum (s.union o) ∈ itemParts (.union (s.union o)) := by simp [itemParts]
    obtain ⟨d, hd, his⟩ := h.type_named (h.mem_itemParts ho hp) rfl
    cases his
    exact hd
  case wrapper =>
    intro v hv
    have hp : .wrapper (s.union o) v ∈ itemParts (.union (s.union o)) := by simp [itemParts, hv]
    obtain ⟨d, hd, his⟩ := h.type_named (h.mem_itemParts ho hp) rfl
    cases his
    exact ⟨_, _, hd⟩
  case holder =>
    have hp : .holder (s.union o) ∈ itemParts (.union (s.union o)) := by simp [itemParts]
    obtain ⟨d, hd, his⟩ := h.variable_named (h.mem_itemParts ho hp) rfl
    cases his
    exact ⟨_, _, _, hd⟩
  case caseGetter =>
    have hp : .caseGetter (s.union o) ∈ accessorParts (s.union o) := List.mem_cons_self
    obtain ⟨d, hd, his⟩ := h.method_named ho hp rfl
    cases his
    exact hd
  case setter =>
    intro v hv
    have hp : .setter (s.union o) v ∈ accessorParts (s.union o) := by simp [accessorParts, hv]
    obtain ⟨d, hd, his⟩ := h.method_named ho hp rfl
    cases his
    exact ⟨_, hd⟩
  case getter =>
    intro v hv
    have hp : .getter (s.union o) v ∈ accessorParts (s.union o) := by simp [accessorParts, hv]
    obtain ⟨d, hd, his⟩ := h.method_named ho hp rfl
    cases his with
    | getter u v type hf => exact ⟨_, _, hf, hd⟩

/-- A constant for a default has its value. -/
theorem constant_named {f : Field} (hf : f ∈ unionMembers m o)
    (hmessage : f.type.isMessage → hasDefaultConst f = false) {c : String}
    (hc : (n.field f).defaultConst = some c) : ∃ type d value,
      p.named Decl.variableName c = some (.constant { type, name := c, value }) ∧
        (s.member f).property.default = some d ∧ d.Written ctx value := by
  obtain ⟨hmem, -, -⟩ := Naming.mem_inhabitedUnions_iff.mp ho
  obtain ⟨hf, hu⟩ := (Naming.mem_unionMembers_iff h.numbered hmem).mp hf
  have hproperty := h.resolved.property f hf
  obtain ⟨v, hv, hkind⟩ := variant_of_classify hproperty (h.extendees f hf (by simp [hu])) hu
  obtain ⟨v', hv', -, hdefault, -⟩ := classify_ok hproperty
  have hnames := h.resolved.fits.memberNames f hf
  have hsome : (s.member f).property.default.isSome := by
    rw [default_isSome hv' hdefault hmessage, ← h.names.defaults f hf, hc, Option.isSome_some]
  have hconstant : constantParts (s.member f) = [.constant (s.member f)] := by
    rw [constantParts, if_pos]
    simp [hnames, hc, Property.value?, hkind, hsome]
  have hpart : .constant (s.member f) ∈ memberParts s xs := by
    have hmember : s.member f ∈ s.members := h.resolved.fits.members ▸ List.mem_map_of_mem hf
    simp only [memberParts, List.mem_append]
    refine Or.inl (Or.inl (Or.inl (Or.inr (List.mem_flatMap.mpr ⟨_, hmember, ?_⟩))))
    rw [hconstant]
    exact List.mem_singleton_self _
  have hname : (s.member f).names.defaultConst = some c := hnames ▸ hc
  obtain ⟨d, hd, his⟩ := h.variable_named hpart hname
  cases his with
  | @constant _ explicit name value type hc' hdefault hv =>
    obtain rfl := Option.some.inj (hname.symm.trans hc')
    exact ⟨type, explicit, value, hd, hdefault, hv⟩

/-- What a getter falls back on is what is unset. -/
theorem unset {f : Field} (hf : f ∈ unionMembers m o)
    (hmessage : f.type.isMessage → hasDefaultConst f = false) {e : Expr}
    (he : Fallback ctx (s.member f) e) (fields : String → Datum) :
    ∃ d, e.eval (p.env (p.value fields)) = some d ∧ Unset ctx m n p f d := by
  obtain ⟨hmem, -, -⟩ := Naming.mem_inhabitedUnions_iff.mp ho
  obtain ⟨hfm, hu⟩ := (Naming.mem_unionMembers_iff h.numbered hmem).mp hf
  have hproperty := h.resolved.property f hfm
  have hnames := h.resolved.fits.memberNames f hfm
  have hdefaults := h.names.defaults f hfm
  obtain ⟨v, hv, hkind⟩ := variant_of_classify hproperty (h.extendees f hfm (by simp [hu])) hu
  cases he with
  | @constant c hc =>
    rw [hnames] at hc
    rw [hc, Option.isSome_some] at hdefaults
    obtain ⟨type, explicit, value, hp, hd, ht⟩ := h.constant_named ho hf hmessage hc
    have hname : Expr.eval (p.env (p.value fields)) (.name c) = some (.text value) := by
      simp [Expr.eval, Program.env, Program.value, hp]
    refine ⟨.text value, ?_, .default hdefaults.symm hc hp hproperty hd ht⟩
    split <;> exact hname
  | @zero oneof payload text hc hk ht =>
    rw [hnames] at hc
    rw [hc, Option.isSome_none] at hdefaults
    obtain ⟨-, rfl⟩ := Kind.variant.inj (hk.symm.trans hkind)
    exact ⟨.text text, rfl, .zero hdefaults.symm hv ht⟩
  | null hc hk => exact absurd hkind (hk _ _)

theorem wrapper_injective {f f' : Field} (hf : f ∈ unionMembers m o) (hf' : f' ∈ unionMembers m o)
    (he : ((n.union o).variant f).wrapper = ((n.union o).variant f').wrapper) : f = f' := by
  obtain ⟨hmem, hreal, -⟩ := Naming.mem_inhabitedUnions_iff.mp ho
  have hd := h.types_nodup
  rw [h.fits.unions, Naming.reduceOption_map_ite, List.flatMap_map, List.nodup_flatMap] at hd
  have hclasses := hd.1 o (List.mem_filter.mpr ⟨hmem, by simp [hreal]⟩)
  rw [unionClassNames, List.nodup_cons, List.nodup_cons] at hclasses
  obtain ⟨-, -, hwrappers⟩ := hclasses
  rw [h.fits.variants_eq h.numbered hmem hreal, List.map_map] at hwrappers
  exact List.inj_on_of_nodup_map hwrappers hf hf' he

theorem variants_eq : (s.union o).variants = (unionMembers m o).map (variantOf s n o) := by
  obtain ⟨hmem, hreal, -⟩ := Naming.mem_inhabitedUnions_iff.mp ho
  exact h.resolved.variants o hmem hreal

theorem variantOf_mem {f : Field} (hf : f ∈ unionMembers m o) :
    variantOf s n o f ∈ (s.union o).variants := by
  rw [h.variants_eq ho]
  exact List.mem_map_of_mem hf

theorem unionNames : (s.union o).names = n.union o := by
  obtain ⟨hmem, hreal, -⟩ := Naming.mem_inhabitedUnions_iff.mp ho
  exact h.resolved.fits.unionNames o hmem hreal

/-- The case enum numbers the members of the union, and no member by zero. -/
theorem caseEnum_numbers (hnumbers : ((unionMembers m o).map (·.number)).Nodup)
    (hzero : 0 ∉ (unionMembers m o).map (·.number)) :
    (caseEnumOf (s.union o)).Numbers
      ((unionMembers m o).map (fun f => (((n.union o).variant f).caseConstant, f.number)) ++
        [((n.union o).notSet, 0)]) := by
  obtain ⟨hmem, hreal, -⟩ := Naming.mem_inhabitedUnions_iff.mp ho
  have hnumber : ∀ f ∈ unionMembers m o, variantNumber (variantOf s n o f) = f.number := by
    intro f hf
    rw [variantNumber, variantOf, h.resolved.fits.field f (List.mem_of_mem_filter hf)]
  have hconstants : (unionMembers m o).map (fun f =>
      (((n.union o).variant f).caseConstant, f.number)) =
        (s.union o).variants.map fun v => (v.names.caseConstant, variantNumber v) := by
    rw [h.variants_eq ho, List.map_map]
    apply List.map_congr_left
    intro f hf
    rw [Function.comp_apply, hnumber f hf, variantOf]
  have hlabels : (s.union o).variants.map variantNumber = (unionMembers m o).map (·.number) := by
    rw [h.variants_eq ho, List.map_map]
    exact List.map_congr_left hnumber
  have hdistinct := h.names.constants o hmem hreal
  rw [Naming.UnionNames.constants, ← variants_names h.numbered h.resolved h.fits hmem hreal,
    List.map_map, ← h.unionNames ho] at hdistinct
  rw [hconstants, ← h.unionNames ho]
  apply caseEnumOf_numbers hdistinct.1 fun hm => (hdistinct.2 _ hm).1 (by decide)
  rw [hlabels, List.nodup_append]
  refine ⟨hnumbers, List.nodup_singleton 0, ?_⟩
  rintro number hn zero hz rfl
  exact hzero (List.mem_singleton.mp hz ▸ hn)

/-- After a setter all getters of the union are right. -/
theorem get_set (hmessage : ∀ f ∈ unionMembers m o, f.type.isMessage → hasDefaultConst f = false)
    {f : Field} (hf : f ∈ unionMembers m o) (fields : String → Datum) (v : Datum) :
    ∃ fields', p.set fields ((n.union o).variant f).setter v = some fields' ∧
      p.get fields' (n.union o).caseGetter =
        some (.constant (n.union o).caseEnum ((n.union o).variant f).caseConstant) ∧
      p.get fields' ((n.union o).variant f).getter = some v ∧
      ∀ f' ∈ unionMembers m o, f' ≠ f → ∃ d,
        p.get fields' ((n.union o).variant f').getter = some d ∧ Unset ctx m n p f' d := by
  have hst := h.stands ho
  have hv := h.variantOf_mem ho hf
  let fields' := Function.update fields (s.union o).names.field (holding (variantOf s n o f) v)
  have hheld : fields' (s.union o).names.field = holding (variantOf s n o f) v :=
    Function.update_self ..
  have hcase := hst.get_case hv hheld
  rw [h.unionNames ho] at hcase
  refine ⟨fields', hst.set hv, hcase, hst.get_set hv hheld, ?_⟩
  intro f' hf' hne
  have hwrapper : (variantOf s n o f).names.wrapper ≠ (variantOf s n o f').names.wrapper :=
    fun he => hne (h.wrapper_injective ho hf' hf he.symm)
  obtain ⟨fallback, hfallback, hget⟩ := hst.get_other (h.variantOf_mem ho hf') hwrapper hheld
  obtain ⟨d, hd, hunset⟩ := h.unset ho hf' (hmessage f' hf') hfallback fields'
  exact ⟨d, hget.trans hd, hunset⟩

/-- A oneof is a tagged union if its members have different numbers other than zero. -/
theorem taggedUnion (hnumbers : ((unionMembers m o).map (·.number)).Nodup)
    (hzero : 0 ∉ (unionMembers m o).map (·.number))
    (hmessage : ∀ f ∈ unionMembers m o, f.type.isMessage → hasDefaultConst f = false) :
    TaggedUnion ctx m n p o := by
  have hst := h.stands ho
  have hnames := h.unionNames ho
  constructor
  case caseEnum => exact ⟨_, hnames ▸ hst.caseEnum, h.caseEnum_numbers ho hnumbers hzero⟩
  case wrappers =>
    obtain ⟨hmem, hreal, -⟩ := Naming.mem_inhabitedUnions_iff.mp ho
    obtain ⟨classes, hparts, -⟩ := h.parts
    have hclasses : (classes.map Part.nested).filterMap (Part.implementing (n.union o).iface) =
        [] := by
      simp [List.filterMap_map, Part.implementing]
    rw [Part.filterMap_eq hparts (Part.Is.implementing_eq _), List.filterMap_append, hclasses,
      List.append_nil]
    have hperm := implementing_perm h.numbered h.resolved h.fits h.extendees h.types_nodup ho xs
    rw [h.fits.variants_eq h.numbered hmem hreal, List.map_map] at hperm
    exact hperm
  case wrapper =>
    intro f hf
    obtain ⟨type, shownPayload, hw⟩ := hst.wrapper _ (h.variantOf_mem ho hf)
    refine ⟨_, hw, by rw [wrapperOf, hnames], fun v => ?_⟩
    have hask := hst.ask (h.variantOf_mem ho hf) (d := v)
    rw [hnames] at hask
    exact hask
  case setter =>
    intro f hf
    obtain ⟨type, hs⟩ := hst.setter _ (h.variantOf_mem ho hf)
    exact ⟨_, _, _, hs, rfl, by rw [setterOf, hnames, variantOf]⟩
  case getter =>
    intro f hf
    obtain ⟨type, fallback, -, hg⟩ := hst.getter _ (h.variantOf_mem ho hf)
    exact ⟨_, _, _, hg, rfl, by rw [getterOf, hnames, variantOf]⟩
  case get_null =>
    rw [← hnames]
    exact fun fields => hst.get_null
  case get_set => exact fun f => h.get_set ho hmessage

end Represents

section Files

variable {ctx : Context} {file i : Nat}

theorem Outline.Inside.trans {a b c : Outline} (h : a.Inside b) (h' : b.Inside c) : a.Inside c := by
  induction h' with
  | self => exact h
  | nested hn _ ih => exact .nested hn ih

/-- The outline of every message that is shown is among the contents of its file. -/
theorem exists_inside {c : Contents} (hl : (ctx.graph.file file).Linked)
    (hc : Contents.of ctx file = .ok c) (hi : (ctx.graph.file file).Shown i) :
    ∃ o, Outline.of ctx file i = .ok o ∧ ∃ top ∈ c.messages, o.Inside top := by
  obtain ⟨_, hm, -⟩ := Contents.of_ok hc
  induction hi with
  | top hi hne hp =>
    have hroot := Schema.File.mem_topMessages_iff.mpr ⟨hi, hp⟩
    obtain ⟨o, ho, hof⟩ := forall₂_exists hm (List.mem_filter.mpr ⟨hroot, by simp [hne]⟩)
    exact ⟨o, hof, o, ho, .self⟩
  | nested hi hne hp hs ih =>
    obtain ⟨parent, hparent, top, htop, hin⟩ := ih
    obtain ⟨_, _, nested, -, -, hn, rfl⟩ := Outline.of_ok hparent
    have hmem := (hl.mem_nestedClasses_iff hs).mpr ⟨.nested hi hne hp hs, hp⟩
    obtain ⟨o, ho, hof⟩ := forall₂_exists hn hmem
    exact ⟨o, hof, top, htop, .trans (.nested ho .self) hin⟩

variable {raws : List Descriptor.File} {g : Schema.Graph} {o : Options} {generate : List Nat}

/-- The classes in the class of a message have different names. -/
theorem classNames_nodup (hl : (g.file file).Linked) (hi : i < (g.file file).messages.length)
    {nested : List Outline}
    (hn : List.Forall₂ (fun j o' => Outline.of (Context.prepare o g generate) file j = .ok o')
      (nestedClasses (g.file file) i) nested) :
    (((Naming.allocate o g generate).message ⟨file, i⟩).unions.reduceOption.flatMap
        unionClassNames ++
      (((g.message ⟨file, i⟩).enums.map fun e =>
          ((Naming.allocate o g generate).enumNames ⟨file, e⟩).className) ++
        nested.map Outline.className)).Nodup := by
  have hclasses : nested.map Outline.className = (nestedClasses (g.file file) i).map fun j =>
      ((Naming.allocate o g generate).message ⟨file, j⟩).className := by
    rw [eq_comm, ← List.forall₂_eq_eq_eq, List.forall₂_map_left_iff, List.forall₂_map_right_iff]
    exact hn.imp fun _ _ => Outline.of_className
  have hsub : (nestedClasses (g.file file) i).Sublist ((g.message ⟨file, i⟩).nested.filter
      fun j => !(g.message ⟨file, j⟩).mapEntry) :=
    List.monotone_filter_right _ fun j hj => (Bool.and_eq_true_iff.mp hj).1
  have hd : ((Naming.allocate o g generate).innerNames g ⟨file, i⟩).Nodup :=
    Naming.innerNames_nodup hl hi
  rw [Naming.Allocation.innerNames, List.perm_append_comm.nodup_iff,
    (List.perm_append_comm.append_left _).nodup_iff] at hd
  rw [hclasses]
  exact hd.sublist (((hsub.map _).append_left _).append_left _)

theorem Outline.of_path {outline : Outline} (h : Outline.of ctx file i = .ok outline) :
    outline.path = (ctx.graph.message ⟨file, i⟩).path := by
  obtain ⟨shape, extensions, nested, hs, -, -, rfl⟩ := Outline.of_ok h
  rw [Outline.path, Shape.of_message hs]

/-- Every message that is shown is a class in one of the beans of its file, which is read as the
parts of its outline. -/
theorem exists_class (hg : Schema.Graph.build raws = .ok g) {as : List Artifact}
    (h : beans (Context.prepare o g generate) file = .ok as) (hi : (g.file file).Shown i) :
    ∃ outline, Outline.of (Context.prepare o g generate) file i = .ok outline ∧
      ∃ a ∈ as, ∃ p, a.HasClass ((g.file file).message i).path
          ((Naming.allocate o g generate).message ⟨file, i⟩).className p ∧
        List.Forall₂ (Part.Is (Context.prepare o g generate)) outline.parts p := by
  obtain ⟨c, hc, hheld⟩ := beans_hold h
  obtain ⟨outline, hof, top, htop, hin⟩ := exists_inside (Schema.Graph.build_linked hg file) hc hi
  obtain ⟨a, ha, lead, body, hbody, p, hread, hparts⟩ := hheld top htop outline hin
  rw [Outline.of_path hof, ← Outline.of_className hof] at hbody
  exact ⟨outline, hof, a, ha, p, ⟨lead, body, hbody, hread⟩, hparts⟩

/-- The parts of an outline represent its message. -/
theorem exists_represents (hl : (g.file file).Linked) (hi : i < (g.file file).messages.length)
    (hx : ∀ f ∈ ((g.file file).message i).fields,
      ((g.file file).message i).union? f ≠ none → f.extendee = none) {outline : Outline}
    (ho : Outline.of (Context.prepare o g generate) file i = .ok outline) {p : Program}
    (hp : List.Forall₂ (Part.Is (Context.prepare o g generate)) outline.parts p) :
    ∃ s xs, Represents (Context.prepare o g generate) s xs ((g.file file).message i)
      ((Naming.allocate o g generate).message ⟨file, i⟩) p := by
  obtain ⟨s, xs, nested, hs, hxs, hn, rfl⟩ := Outline.of_ok ho
  have hm : ((g.file file).message i).Numbered := hl.message_numbered hi
  have hnames : (Naming.allocate o g generate).message ⟨file, i⟩ = _ := Naming.allocate_message hi
  have hfits : ((Naming.allocate o g generate).message ⟨file, i⟩).Fits
      ((g.file file).message i) := hnames ▸ Naming.messageNames_fits hm
  have hresolved := Shape.of_resolved hs hm hfits
  rw [hresolved.fits.message, hresolved.fits.names] at hxs
  refine ⟨s, xs, ?_⟩
  constructor
  case numbered => exact hm
  case resolved => exact hresolved
  case fits => exact hfits
  case names => exact hnames ▸ Naming.messageNames_scoped hm
  case extendees => exact hx
  case extensions => exact extensionsOf_names hxs
  case parts =>
    refine ⟨_, ?_, classNames_nodup hl hi hn⟩
    rw [Outline.parts, hresolved.fits.message, List.append_assoc, List.map_map] at hp
    rw [List.map_append, List.map_map, List.map_map]
    exact hp

/-- Every message of a file is a class in one of its beans, in which all oneofs with members are
tagged unions. -/
theorem beans_taggedUnions (hg : Schema.Graph.build raws = .ok g) (o : Options)
    (generate : List Nat) {as : List Artifact}
    (h : beans (Context.prepare o g generate) file = .ok as) (hi : (g.file file).Shown i)
    (hx : ∀ f ∈ ((g.file file).message i).fields,
      ((g.file file).message i).union? f ≠ none → f.extendee = none) :
    let m := (g.file file).message i
    let n := (Naming.allocate o g generate).message ⟨file, i⟩
    ∃ a ∈ as, ∃ p, a.HasClass m.path n.className p ∧
      ∀ u ∈ m.oneofs, u.synthetic = false → unionMembers m u ≠ [] →
        ((unionMembers m u).map (·.number)).Nodup → 0 ∉ (unionMembers m u).map (·.number) →
        (∀ f ∈ unionMembers m u, f.type.isMessage → hasDefaultConst f = false) →
        TaggedUnion (Context.prepare o g generate) m n p u := by
  intro m n
  obtain ⟨outline, hof, a, ha, p, hclass, hparts⟩ := exists_class hg h hi
  obtain ⟨s, xs, hrepresents⟩ :=
    exists_represents (Schema.Graph.build_linked hg file) hi.lt hx hof hparts
  refine ⟨a, ha, p, hclass, ?_⟩
  intro u hu hreal hne
  exact hrepresents.taggedUnion (Naming.mem_inhabitedUnions_iff.mpr ⟨hu, hreal, hne⟩)

/-- A file with a message whose unions stand apart, one with a default and one beside a class that
is called like one of its members. -/
def ticket : Descriptor.File where
  name := "ticket.proto"
  package := "desk"
  messages := [{
    name := "Ticket"
    fields := [
      { name := "seat", number := 4, type := 9, label := 1, oneofIndex := some 0,
        defaultValue := some "none" },
      { name := "gate", number := 1, type := 5, label := 1, oneofIndex := some 1 },
      { name := "row", number := 2, type := 5, label := 1, oneofIndex := some 0 },
      { name := "owner", number := 7, type := 11, label := 1, typeName := ".desk.Ticket",
        oneofIndex := some 1 }]
    nested := [{ name := "PlaceRow" }]
    oneofs := ["place", "entry"] }]

theorem beans_taggedUnions_ticket :
    ∃ g as, Schema.Graph.build [ticket] = .ok g ∧
      beans (Context.prepare ⟨"bean", "conv", .file, false⟩ g [0]) 0 = .ok as ∧
      let m := (g.file 0).message 0
      let n := (Naming.allocate ⟨"bean", "conv", .file, false⟩ g [0]).message ⟨0, 0⟩
      m.oneofs.length = 2 ∧ ∃ a ∈ as, ∃ p, a.HasClass m.path n.className p ∧ ∀ u ∈ m.oneofs,
        TaggedUnion (Context.prepare ⟨"bean", "conv", .file, false⟩ g [0]) m n p u := by
  let g := (Schema.Graph.build [ticket]).toOption.getD default
  have hg : Schema.Graph.build [ticket] = .ok g := rfl
  let ctx := Context.prepare ⟨"bean", "conv", .file, false⟩ g [0]
  have hroots : ((ctx.graph.file 0).topMessages.filter fun i =>
      !((ctx.graph.file 0).message i).mapEntry) = [0] := by
    decide +kernel
  have houtline : (Outline.of ctx 0 0).isOk := by
    rw [Outline.of]
    decide +kernel
  have hextensions : (extensionsOf ctx none (ctx.graph.file 0).extensions
      (ctx.names.file 0).extensions).isOk := by
    decide +kernel
  have hshown : (g.file 0).shown 0 := by decide +kernel
  have hextendees : ∀ f ∈ ((g.file 0).message 0).fields,
      ((g.file 0).message 0).union? f ≠ none → f.extendee = none := by
    decide +kernel
  have hunions : ∀ u ∈ ((g.file 0).message 0).oneofs, u.synthetic = false ∧
      unionMembers ((g.file 0).message 0) u ≠ [] ∧
      ((unionMembers ((g.file 0).message 0) u).map (·.number)).Nodup ∧
      0 ∉ (unionMembers ((g.file 0).message 0) u).map (·.number) ∧
      ∀ f ∈ unionMembers ((g.file 0).message 0) u, f.type.isMessage →
        hasDefaultConst f = false := by
    decide +kernel
  obtain ⟨as, has⟩ := exists_beans_of_isOk (by simpa [hroots] using houtline) hextensions
  have hlt : 0 < (g.file 0).messages.length := by decide +kernel
  have hi := ((Schema.Graph.build_linked hg 0).shown_iff hlt).mp hshown
  obtain ⟨a, ha, p, hclass, h⟩ := beans_taggedUnions hg ⟨"bean", "conv", .file, false⟩ [0] has hi
    hextendees
  refine ⟨g, as, hg, has, by decide +kernel, a, ha, p, hclass, fun u hu => ?_⟩
  obtain ⟨hreal, hne, hnumbers, hzero, hmessage⟩ := hunions u hu
  exact h u hu hreal hne hnumbers hzero hmessage

/-- A file with a union whose member extends a message, and a union of a message with a default
and a number. -/
def odd : Descriptor.File where
  name := "odd.proto"
  package := "odd"
  messages := [
    { name := "Foreign"
      fields := [
        { name := "leaf", number := 1, type := 5, label := 1, oneofIndex := some 0,
          extendee := some ".odd.Foreign" }]
      oneofs := ["kind"] },
    { name := "Preset"
      fields := [
        { name := "leaf", number := 1, type := 11, label := 1, typeName := ".odd.Foreign",
          oneofIndex := some 0, defaultValue := some "x" },
        { name := "size", number := 2, type := 5, label := 1, oneofIndex := some 0 }]
      oneofs := ["kind"] }]

/-- Members that extend a message, and messages with defaults, are no members of tagged unions:
the first have no case, and the constants for the second are not declared. -/
theorem oneofs_untagged :
    ∃ g as, Schema.Graph.build [odd] = .ok g ∧
      beans (Context.prepare ⟨"bean", "conv", .type, false⟩ g [0]) 0 = .ok as ∧
      ∀ i < 2,
        let m := (g.file 0).message i
        let n := (Naming.allocate ⟨"bean", "conv", .type, false⟩ g [0]).message ⟨0, i⟩
        (g.file 0).Shown i ∧ ∃ a ∈ as, ∃ p, a.HasClass m.path n.className p ∧
          ∃ u ∈ m.oneofs, u.synthetic = false ∧ unionMembers m u ≠ [] ∧
            ((unionMembers m u).map (·.number)).Nodup ∧ 0 ∉ (unionMembers m u).map (·.number) ∧
            ¬ TaggedUnion (Context.prepare ⟨"bean", "conv", .type, false⟩ g [0]) m n p u := by
  let g := (Schema.Graph.build [odd]).toOption.getD default
  have hg : Schema.Graph.build [odd] = .ok g := rfl
  let ctx := Context.prepare ⟨"bean", "conv", .type, false⟩ g [0]
  have hroots : ((ctx.graph.file 0).topMessages.filter fun i =>
      !((ctx.graph.file 0).message i).mapEntry) = [0, 1] := by
    decide +kernel
  have hforeign : (Outline.of ctx 0 0).toOption.any fun o =>
      decide ("KindCase" ∉ o.parts.filterMap Part.typeName) := by
    rw [Outline.of]
    decide +kernel
  have hpreset : (Outline.of ctx 0 1).toOption.any fun o =>
      decide ("DEFAULT_LEAF" ∉ o.parts.filterMap Part.variableName) := by
    rw [Outline.of]
    decide +kernel
  have hextensions : (extensionsOf ctx none (ctx.graph.file 0).extensions
      (ctx.names.file 0).extensions).isOk := by
    decide +kernel
  have hshown : ∀ i < 2, (g.file 0).shown i := by
    decide +kernel
  have hunions : ∀ i < 2, ∃ u ∈ ((g.file 0).message i).oneofs, u.synthetic = false ∧
      unionMembers ((g.file 0).message i) u ≠ [] ∧
      ((unionMembers ((g.file 0).message i) u).map (·.number)).Nodup ∧
      0 ∉ (unionMembers ((g.file 0).message i) u).map (·.number) := by
    decide +kernel
  let names := Naming.allocate ⟨"bean", "conv", .type, false⟩ g [0]
  have hcaseEnum : ∀ u ∈ ((g.file 0).message 0).oneofs,
      ((names.message ⟨0, 0⟩).union u).caseEnum = "KindCase" := by
    decide +kernel
  have hconstant : ∀ u ∈ ((g.file 0).message 1).oneofs,
      ∃ f ∈ unionMembers ((g.file 0).message 1) u, ∃ f' ∈ unionMembers ((g.file 0).message 1) u,
        f' ≠ f ∧ hasDefaultConst f' ∧
          ((names.message ⟨0, 1⟩).field f').defaultConst = some "DEFAULT_LEAF" := by
    decide +kernel
  obtain ⟨foreign, hforeign, htypes⟩ := exists_eq_ok_of_any hforeign
  obtain ⟨preset, hpreset, hvariables⟩ := exists_eq_ok_of_any hpreset
  have houtlines : ∀ i ∈ [0, 1], (Outline.of ctx 0 i).isOk := by
    simp [hforeign, hpreset, Except.isOk, Except.toBool]
  obtain ⟨as, has⟩ := exists_beans_of_isOk (hroots ▸ houtlines) hextensions
  refine ⟨g, as, hg, has, ?_⟩
  intro i hi
  have hlt : (g.file 0).messages.length = 2 := by decide +kernel
  have hs := ((Schema.Graph.build_linked hg 0).shown_iff (hlt ▸ hi)).mp (hshown i hi)
  obtain ⟨outline, hof, a, ha, p, hclass, hparts⟩ := exists_class hg has hs
  obtain ⟨u, hu, hreal, hne, hnumbers, hzero⟩ := hunions i hi
  refine ⟨hs, a, ha, p, hclass, u, hu, hreal, hne, hnumbers, hzero, fun htagged => ?_⟩
  obtain rfl | rfl : i = 0 ∨ i = 1 := by omega
  · obtain rfl := Except.ok.inj (hof.symm.trans hforeign)
    have hmem := htagged.caseEnum_mem
    rw [Part.filterMap_eq hparts Part.Is.typeName_eq, hcaseEnum u hu] at hmem
    exact of_decide_eq_true htypes hmem
  · obtain rfl := Except.ok.inj (hof.symm.trans hpreset)
    obtain ⟨f, hf, f', hf', hne', hd, hc⟩ := hconstant u hu
    have hmem := htagged.default_mem hf hf' hne' hd hc
    rw [Part.filterMap_eq hparts Part.Is.variableName_eq] at hmem
    exact of_decide_eq_true hvariables hmem

end Files

end ProtoJava.Bean
