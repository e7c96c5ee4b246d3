import ProtoJava.Proofs.Bean.Programs
import ProtoJava.Proofs.Java.Imports

/-! # Unions at work

What the accessors of a union do where the names of its parts mean these parts: a setter stores a
value in the class of its member, and that class tells every getter what to return.
-/

namespace ProtoJava.Bean

open Java
open Mapping

/-- An object of the class of a member. -/
def holding (v : Variant) (d : Datum) : Datum :=
  .object v.names.wrapper v.member.names.field d

/-- A program in which the names of the parts of a union mean these parts. -/
structure Stands (ctx : Context) (u : Union) (p : Program) : Prop where
  caseEnum : p.named Decl.typeName u.names.caseEnum = some (.caseEnum (caseEnumOf u))
  wrapper : ∀ v ∈ u.variants, ∃ type shownPayload,
    p.named Decl.typeName v.names.wrapper = some (.wrapper (wrapperOf u v type shownPayload))
  holder : ∃ path type trail,
    p.named Decl.variableName u.names.field = some (.field path type u.names.field trail)
  caseGetter : p.named Decl.methodName u.names.caseGetter = some (.method (caseGetterOf u))
  setter : ∀ v ∈ u.variants, ∃ type,
    p.named Decl.methodName v.names.setter = some (.method (setterOf u v type))
  getter : ∀ v ∈ u.variants, ∃ type fallback, Fallback ctx v.member fallback ∧
    p.named Decl.methodName v.names.getter = some (.method (getterOf u v type fallback))

theorem caseEnumOf_constants (u : Union) : (caseEnumOf u).constants.map (·.1) =
    u.variants.map (·.names.caseConstant) ++ [u.names.notSet] := by
  simp [caseEnumOf, NumberedEnum.tabulated, Function.comp_def]

theorem caseEnumOf_numbers {u : Union}
    (hc : (u.variants.map (·.names.caseConstant) ++ [u.names.notSet]).Nodup)
    (hnumber : "number" ∉ u.variants.map (·.names.caseConstant) ++ [u.names.notSet])
    (hn : (u.variants.map variantNumber ++ [0]).Nodup) :
    (caseEnumOf u).Numbers (caseEnumOf u).constants := by
  rw [← caseEnumOf_constants] at hc hnumber
  have hlabels : u.variants.map variantNumber ++ [0] =
      ((u.variants.map fun v => (variantNumber v, v.names.caseConstant)) ++
        [((0 : Int), u.names.notSet)]).map (·.1) := by
    simp [Function.comp_def]
  rw [hlabels] at hn
  constructor
  case constants => rfl
  case names => exact hc
  case labels => exact NumberedEnum.labels_tabulated ▸ hn
  case getNumber => exact fun c => NumberedEnum.getNumber_tabulated hc
  case forNumber =>
    intro c hmem
    refine NumberedEnum.forNumber_case hc hnumber hn ?_ (List.mem_map_of_mem hmem)
    simp only [caseEnumOf, NumberedEnum.tabulated, List.mem_append, List.mem_map,
      List.mem_singleton] at hmem ⊢
    rcases hmem with ⟨v, hv, rfl⟩ | rfl
    · exact Or.inl ⟨v, hv, rfl⟩
    · exact Or.inr rfl

namespace Stands

variable {ctx : Context} {u : Union} {p : Program} (h : Stands ctx u p) {v w : Variant}
  (hv : v ∈ u.variants) {fields : String → Datum} {d : Datum}

include h

theorem enumConstant {c : String} (hc : c ∈ (caseEnumOf u).constants.map (·.1)) :
    p.enumConstant u.names.caseEnum c = some (.constant u.names.caseEnum c) := by
  rw [Program.enumConstant, h.caseEnum]
  exact if_pos hc

theorem isField : p.isField u.names.field := by
  obtain ⟨path, type, trail, hx⟩ := h.holder
  rw [Program.isField, hx]

theorem value : p.value fields u.names.field = some (fields u.names.field) := by
  obtain ⟨path, type, trail, hx⟩ := h.holder
  rw [Program.value, hx]

/-- The getter of the case without a member that is set. -/
theorem get_null (hd : fields u.names.field = .null) :
    p.get fields u.names.caseGetter = some (.constant u.names.caseEnum u.names.notSet) := by
  have hc : u.names.notSet ∈ (caseEnumOf u).constants.map (·.1) := by simp [caseEnumOf_constants]
  have hconstant := h.enumConstant hc
  rw [Program.get, h.caseGetter]
  simp [Method.answer, caseGetterOf, Expr.eval, Program.env, h.value, hd, hconstant]

include hv

theorem construct : p.construct v.names.wrapper d = some (holding v d) := by
  obtain ⟨type, shownPayload, hw⟩ := h.wrapper v hv
  rw [Program.construct, hw]
  simp [wrapperOf, Expr.eval, Program.innerEnv, holding]

/-- An object tells the case of its member. -/
theorem ask : p.ask (holding v d) u.names.caseGetter =
    some (.constant u.names.caseEnum v.names.caseConstant) := by
  obtain ⟨type, shownPayload, hw⟩ := h.wrapper v hv
  have hc : v.names.caseConstant ∈ (caseEnumOf u).constants.map (·.1) := by
    rw [caseEnumOf_constants, List.mem_append]
    exact Or.inl (List.mem_map.mpr ⟨v, hv, rfl⟩)
  rw [holding, Program.ask]
  simp [hw, wrapperOf, Method.answer, Expr.eval, Program.innerEnv, h.enumConstant hc]

/-- A setter stores a new object of the class of its member. -/
theorem set : p.set fields v.names.setter d =
    some (Function.update fields u.names.field (holding v d)) := by
  obtain ⟨type, hs⟩ := h.setter v hv
  rw [Program.set, hs]
  simp [setterOf, h.isField, Expr.eval, Program.env, h.construct hv]

/-- The getter of the case with a member that is set. -/
theorem get_case (hd : fields u.names.field = holding v d) :
    p.get fields u.names.caseGetter =
      some (.constant u.names.caseEnum v.names.caseConstant) := by
  have hnull : holding v d ≠ .null := by simp [holding]
  have hask := h.ask hv (d := d)
  rw [Program.get, h.caseGetter]
  simp [Method.answer, caseGetterOf, Expr.eval, Program.env, h.value, hd, hnull, hask]

/-- The getter of a member that is set. -/
theorem get_set (hd : fields u.names.field = holding v d) :
    p.get fields v.names.getter = some d := by
  obtain ⟨type, fallback, -, hg⟩ := h.getter v hv
  rw [Program.get, hg]
  simp [Method.answer, getterOf, Expr.eval, Program.env, h.value, hd, holding, Datum.isObject,
    Datum.field?]

omit hv in
/-- The getter of a member where another one is set. -/
theorem get_other (hw : w ∈ u.variants) (hne : v.names.wrapper ≠ w.names.wrapper)
    (hd : fields u.names.field = holding v d) :
    ∃ fallback, Fallback ctx w.member fallback ∧
      p.get fields w.names.getter = fallback.eval (p.env (p.value fields)) := by
  obtain ⟨type, fallback, hf, hg⟩ := h.getter w hw
  refine ⟨fallback, hf, ?_⟩
  rw [Program.get, hg]
  simp [Method.answer, getterOf, Expr.eval, Program.env, h.value, hd, holding, Datum.isObject, hne]

end Stands

end ProtoJava.Bean
