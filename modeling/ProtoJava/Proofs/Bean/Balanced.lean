import ProtoJava.Bean.File
import ProtoJava.Proofs.Mapping.Rendering

/-! # Balance of bean sources

The steps that write beans are balanced, writer by writer, whatever comments and defaults a schema
has.
-/

namespace ProtoJava.Java

section Snippets

variable {name : String}

theorem balanced_comment (text : Option String) : Balanced (commentSteps text) := by
  cases text with
  | none => exact .nil
  | some text => exact .comment text

theorem balanced_leading (f : Schema.File) (path : Schema.Path) : Balanced (leading f path) :=
  balanced_comment _

theorem balanced_trailing (f : Schema.File) (path : Schema.Path) : Balanced (trailing f path) :=
  balanced_comment _

theorem balanced_deprecatedMark (deprecated : Bool) : Balanced (deprecatedMark deprecated) := by
  cases deprecated
  · exact .nil
  · exact .line fun _ => .lit rfl

theorem balanced_guarded {reference statement : String} (hr : Neutral reference)
    (hs : Neutral statement) : Balanced [guarded reference statement] := by
  refine .braced (fun _ => ?_) (.line hs)
  exact .append (.append (.lit rfl) hr.turn) (.lit rfl)

theorem balanced_numberMembers (h : Neutral name) : Balanced (numberMembers name) := by
  have hconstructor : Neutral (name ++ "(int number)") := h.append fun _ => .lit rfl
  refine .cons (.line fun _ => .lit rfl) (.cons .blank (.cons ?_ (.cons .blank ?_)))
  · exact .braced hconstructor (.line fun _ => .lit rfl)
  · exact .braced (fun _ => .lit rfl) (.line fun _ => .lit rfl)

theorem balanced_forNumberMethod (h : Neutral name) {cases_ : List (Int × String)}
    (hc : ∀ p ∈ cases_, Neutral p.2) {others : List Step} (ho : Balanced others) :
    Balanced [forNumberMethod name cases_ others] := by
  have hhead : Neutral ("public static " ++ name ++ " forNumber(int number)") :=
    (Neutral.append (fun _ => .lit rfl) h).append fun _ => .lit rfl
  refine .braced hhead (.braced (fun _ => .lit rfl) (.append (.map fun p hp => .line ?_) ho))
  intro a
  exact .append (.append (.append (.append (.lit rfl) (neutral_int p.1).turn) (.lit rfl))
    (hc p hp).turn) (.lit rfl)

end Snippets

end ProtoJava.Java

namespace ProtoJava.Bean

open Java
open Mapping

/-- An enum with proper names. -/
def EnumShape.Proper (e : EnumShape) : Prop :=
  e.names.Proper

structure Extension.Proper (x : Extension) : Prop where
  property : x.property.Proper
  names : x.names.Proper
  target : Inline x.target

section Enums

variable (f : Schema.File) {e : EnumShape}

theorem EnumShape.Proper.name (h : e.Proper) : Neutral e.names.className :=
  neutral_of_isIdentifier h.className

theorem neutral_getD {names : List String} (h : ∀ name ∈ names, isIdentifier name.toList)
    (i : Nat) : Neutral (names.getD i "") := by
  rw [List.getD_eq_getElem?_getD]
  cases hi : names[i]? with
  | none => exact neutral_empty
  | some name => exact neutral_of_isIdentifier (h name (List.mem_of_getElem? hi))

theorem balanced_constantSteps (h : e.Proper) (i : Nat) (v : Schema.EnumValue) {constant : String}
    (hc : isIdentifier constant.toList) : Balanced (constantSteps f e i v constant) := by
  have hconstant : Neutral ("" ++ constant ++ ("(" ++ toString v.number ++ ")" ++
      if i + 1 = e.type.values.length then ";" else ",")) := by
    have hmark : Neutral (if i + 1 = e.type.values.length then ";" else ",") := by
      split <;> exact fun _ => .lit rfl
    intro a
    refine .append (.append (.lit rfl) (neutral_of_isIdentifier hc).turn) (.append ?_ hmark.turn)
    exact .append (.append (.lit rfl) (neutral_int v.number).turn) (.lit rfl)
  dsimp only [constantSteps]
  refine .append (.append (.append (.append (balanced_leading f v.path) ?_)
    (balanced_deprecatedMark _)) (.annotated hc hconstant)) (balanced_trailing f v.path)
  split
  · refine .remark (Remark.append (Remark.append ?_ (.lit (by decide))) ?_)
    · exact (Remark.lit (by decide)).append (neutral_int v.number).inline
    · exact (neutral_getD h.constants _).inline
  · exact .nil

theorem balanced_constantsSteps (h : e.Proper) : Balanced (constantsSteps f e) := by
  refine .append ?_ (.flatten fun steps hs => ?_)
  · split
    · exact .line fun _ => .lit rfl
    · exact .nil
  · obtain ⟨i, hi, rfl⟩ := List.mem_mapIdx.mp hs
    have hmem := (List.of_mem_zip (List.getElem_mem hi)).2
    exact balanced_constantSteps f h i _ (h.constants _ hmem)

theorem neutral_cases (h : e.Proper) : ∀ p ∈ e.cases, Neutral p.2 := by
  intro p hp
  obtain ⟨⟨v, constant⟩, hv, rfl⟩ := List.mem_map.mp hp
  have hmem := (List.of_mem_zip (List.mem_of_mem_filter hv)).2
  exact neutral_of_isIdentifier (h.constants constant hmem)

theorem balanced_enumSteps (h : e.Proper) : Balanced (enumSteps f e) := by
  have hname : Neutral ("public enum " ++ e.names.className ++ "") :=
    (Neutral.append (fun _ => .lit rfl) h.name).append neutral_empty
  have hothers : Neutral ("default: return " ++ e.names.constants.headD "null" ++ ";") := by
    refine (Neutral.append (fun _ => .lit rfl) ?_).append fun _ => .lit rfl
    cases hc : e.names.constants with
    | nil => exact fun _ => .lit rfl
    | cons constant rest =>
      exact neutral_of_isIdentifier (h.constants constant (hc ▸ List.mem_cons_self))
  refine ((balanced_leading f e.type.path).append (balanced_deprecatedMark _)).append ?_
  refine .declared h.className hname (.append (.append ?_ (balanced_numberMembers h.name)) ?_)
  · exact ((balanced_trailing f e.type.path).append (balanced_constantsSteps f h)).append .blank
  · exact .cons .blank (balanced_forNumberMethod h.name (neutral_cases h) (.line hothers))

theorem balanced_extensionSteps {x : Extension} (h : x.Proper) :
    Balanced (extensionSteps f x) := by
  have htarget : Inline (plainName x.target) :=
    .lit fun hm => h.target ((List.dropWhile_sublist _).subset hm)
  have hnumber : Neutral ("public static final int " ++ x.names.numberConst ++
      (" = " ++ toString x.property.field.number ++ ";")) := by
    refine (Neutral.append (fun _ => .lit rfl)
      (neutral_of_isIdentifier h.names.numberConst)).append ?_
    exact (Neutral.append (fun _ => .lit rfl) (neutral_int _)).append fun _ => .lit rfl
  have hextendee : Neutral ("public static final String " ++ x.names.extendeeConst ++ " = " ++
      Text.quoted (plainName x.target) ++ ";") := by
    refine ((Neutral.append ?_ fun _ => .lit rfl).append (neutral_quoted _)).append
      fun _ => .lit rfl
    exact Neutral.append (fun _ => .lit rfl) h.names.extendeeConst
  refine (balanced_leading f x.property.field.path).append (.cons (.remark ?_) ?_)
  · refine ((Remark.append ?_ (.lit (by decide))).append (h.property.described f.dialect)).append
      (.lit (by decide))
    exact (Remark.lit (by decide)).append htarget
  · exact .cons (.annotated h.names.numberConst hnumber) (.cons (.line hextendee) .blank)

theorem balanced_holderSteps {modifiers name : String} (hm : Neutral modifiers) (hn : Neutral name)
    {extensions : List Extension} (h : ∀ x ∈ extensions, x.Proper) :
    Balanced (holderSteps f modifiers name extensions) := by
  have hhead : ∀ a, Turn (modifiers ++ "final class " ++ name ++ " \x7b") a ('\x7b' :: a) :=
    fun a => .append (.append (.append hm.turn (.lit rfl)) hn.turn) (.lit rfl)
  have hconstructor : Neutral ("private " ++ name ++ "() \x7b\x7d") :=
    (Neutral.append (fun _ => .lit rfl) hn).append fun _ => .lit rfl
  have hbody : Balanced ([.line ("private " ++ name ++ "() \x7b\x7d"), .blank] ++
      extensions.flatMap (extensionSteps f)) :=
    (Balanced.cons (.line hconstructor) .blank).append
      (.flatMap fun x hx => balanced_extensionSteps f (h x hx))
  intro a
  exact .line (.code (hhead a)) (.body (hbody _) (.code (.lit rfl)) .nil)

theorem balanced_rangeStep (range : Int × Int) : Balanced [rangeStep range] := by
  have hstart : Remark ("// extensions " ++ toString range.1) :=
    (Remark.lit (by decide)).append (neutral_int _).inline
  simp only [rangeStep]
  split_ifs
  · exact .remark (hstart.append (.lit (by decide)))
  · exact .remark (hstart.append (.lit (by decide)))
  · refine .remark (((hstart.append (.lit (by decide))).append ?_).append (.lit (by decide)))
    exact (neutral_int _).inline

end Enums

/-- Steps that are balanced whatever has been imported, as long as that is neutral. -/
abbrev Balances (x : Referring (List Step)) : Prop :=
  Yields Imports.Tidy x Balanced

/-- Lists of steps that are balanced one by one are balanced together. -/
theorem balanced_of_forall₂ {α : Type} {items : List α} {lists : List (List Step)}
    (h : List.Forall₂ (fun _ steps => Balanced steps) items lists) : Balanced lists.flatten := by
  induction h with
  | nil => exact .nil
  | cons h _ ih => exact h.append ih

section Unions

variable {ctx : Context} (f : Schema.File) {u : Union} {v : Variant}

theorem shown_gives (p : Property) {expression : String} (h : Neutral expression) :
    Gives (shown p expression) := by
  have hquoted : Neutral ("\"\x27\" + " ++ expression ++ " + \"\x27\"") :=
    (Neutral.append (fun _ => .lit rfl) h).append fun _ => .lit rfl
  have harrays : Gives (return (← refer arraysClass) ++ ".toString(" ++ expression ++ ")") := by
    have hclass : arraysClass.Neutral := neutral_library (fun _ => .lit rfl) fun _ => .lit rfl
    refine (refer_gives hclass).bind fun name hn => Yields.pure fun a => ?_
    exact .append (.append (.append hn.turn (.lit rfl)) h.turn) (.lit rfl)
  unfold shown
  split
  · exact Yields.pure hquoted
  · exact Yields.pure hquoted
  · exact harrays
  · exact harrays
  · exact Yields.pure h

theorem balanced_caseEnumStep (h : u.Proper) : Balanced [caseEnumStep u] := by
  have hconstants : Balanced (caseConstantSteps u) := by
    refine .append (.map fun v hv => .line fun a => ?_) (.line ?_)
    · exact .append (.append (.append (h.variants v hv).names.caseConstant.turn (.lit rfl))
        (neutral_int _).turn) (.lit rfl)
    · exact h.names.notSet.append fun _ => .lit rfl
  have hcases : ∀ p ∈ u.variants.map fun v => (variantNumber v, v.names.caseConstant),
      Neutral p.2 :=
    List.forall_mem_map.mpr fun v hv => (h.variants v hv).names.caseConstant
  have hothers : Balanced [.line ("case 0: return " ++ u.names.notSet ++ ";"),
      .line "default: return null;"] :=
    .cons (.line ((Neutral.append (fun _ => .lit rfl) h.names.notSet).append fun _ => .lit rfl))
      (.line fun _ => .lit rfl)
  refine .braced (Neutral.append (fun _ => .lit rfl) h.names.caseEnum) ?_
  refine ((hconstants.append .blank).append (balanced_numberMembers h.names.caseEnum)).append ?_
  exact .cons .blank (balanced_forNumberMethod h.names.caseEnum hcases hothers)

theorem balanced_ifaceStep (h : u.Proper) : Balanced [ifaceStep u] := by
  refine .braced (Neutral.append (fun _ => .lit rfl) h.names.iface) (.line ?_)
  refine (Neutral.append ?_ (neutral_of_isIdentifier h.names.caseGetter)).append fun _ => .lit rfl
  exact h.names.caseEnum.append fun _ => .lit rfl

theorem balanced_wrapperStep (hu : u.Proper) (hv : v.Proper) {type payload : String}
    (ht : Neutral type) (hp : Neutral payload) : Balanced [wrapperStep u v type payload] := by
  have hfield := neutral_of_isIdentifier hv.member.names.field
  have hgetter := neutral_of_isIdentifier hu.names.caseGetter
  have hwrapper := hv.names.wrapper
  have hconstant := hv.names.caseConstant
  have hcase := hu.names.caseEnum
  have hhead : Neutral ("public static final class " ++ v.names.wrapper ++ " implements " ++
      u.names.iface) :=
    ((Neutral.append (fun _ => .lit rfl) hwrapper).append fun _ => .lit rfl).append hu.names.iface
  have hdeclaration : Neutral ("public final " ++ type ++ " " ++ v.member.names.field ++ ";") :=
    (((Neutral.append (fun _ => .lit rfl) ht).append fun _ => .lit rfl).append hfield).append
      fun _ => .lit rfl
  have hconstructor : Neutral ("public " ++ v.names.wrapper ++ "(" ++ type ++ " " ++
      v.member.names.field ++ ")") := by
    intro a
    repeat' apply Turn.append
    all_goals first | exact Neutral.turn (by assumption) | exact .lit rfl
  have hassignment : Neutral ("this." ++ v.member.names.field ++ " = " ++ v.member.names.field ++
      ";") :=
    (((Neutral.append (fun _ => .lit rfl) hfield).append fun _ => .lit rfl).append hfield).append
      fun _ => .lit rfl
  have hcaseHead : Neutral ("public " ++ u.names.caseEnum ++ " " ++ u.names.caseGetter ++ "()") :=
    (((Neutral.append (fun _ => .lit rfl) hcase).append fun _ => .lit rfl).append hgetter).append
      fun _ => .lit rfl
  have hcaseResult : Neutral ("return " ++ u.names.caseEnum ++ "." ++ v.names.caseConstant ++
      ";") :=
    (((Neutral.append (fun _ => .lit rfl) hcase).append fun _ => .lit rfl).append hconstant).append
      fun _ => .lit rfl
  have hshown : Neutral ("return " ++ Text.quoted (v.names.wrapper ++ "\x7b" ++
      v.member.names.field ++ "=") ++ " + " ++ payload ++ " + \"\x7d\";") := by
    refine (Neutral.append (Neutral.append ?_ fun _ => .lit rfl) hp).append fun _ => .lit rfl
    exact Neutral.append (fun _ => .lit rfl) (neutral_quoted _)
  have hoverride : Balanced [.line "@Override"] := .line fun _ => .lit rfl
  refine .braced hhead (.cons (.annotated hv.member.names.field hdeclaration) (.cons .blank ?_))
  refine .cons (.braced hconstructor (.line hassignment)) (.cons .blank (hoverride.cons ?_))
  refine .cons (.braced hcaseHead (.line hcaseResult)) (.cons .blank (hoverride.cons ?_))
  exact .braced (fun _ => .lit rfl) (.line hshown)

variable (hctx : ctx.Proper) (hu : u.Proper)

include hctx hu

theorem variantSteps_balances (hv : v.Proper) : Balances (variantSteps ctx f u v) := by
  refine (Property.type_gives hctx _).bind fun type ht => ?_
  refine (shown_gives _ (neutral_of_isIdentifier hv.member.names.field)).bind fun payload hp => ?_
  have hremark : Remark ("// " ++ v.member.property.describe f.dialect) :=
    (Remark.lit (by decide)).append (hv.member.property.described f.dialect)
  refine Yields.pure ?_
  refine (((balanced_leading f _).append (.remark hremark)).append
    (balanced_deprecatedMark _)).append ?_
  exact .cons (balanced_wrapperStep hu hv ht hp) .blank

theorem unionSteps_balances : Balances (unionSteps ctx f u) := by
  refine (Yields.mapM fun v hv => variantSteps_balances f hctx hu (hu.variants v hv)).bind
    fun variants hvariants => Yields.pure ?_
  have hfield : Neutral ("public " ++ u.names.iface ++ " " ++ u.names.field ++ ";") :=
    (((Neutral.append (fun _ => .lit rfl) hu.names.iface).append fun _ => .lit rfl).append
      (neutral_of_isIdentifier hu.names.field)).append fun _ => .lit rfl
  have htypes : Balanced [caseEnumStep u, .blank, ifaceStep u, .blank] :=
    .cons (balanced_caseEnumStep hu) (.cons .blank (.cons (balanced_ifaceStep hu) .blank))
  exact (((balanced_leading f _).append htypes).append (balanced_of_forall₂ hvariants)).append
    (.annotated hu.names.field hfield)

theorem accessorSteps_balances (hv : v.Proper) : Balances (accessorSteps ctx u v) := by
  have hfield := neutral_of_isIdentifier hv.member.names.field
  have hunion := neutral_of_isIdentifier hu.names.field
  have hwrapper := hv.names.wrapper
  have hset := hv.names.setter
  refine (Property.type_gives hctx _).bind fun type ht => ?_
  refine (fallback_gives hctx hv.member.names.defaultConst).bind fun fallback hf => ?_
  have hsetter : Neutral ("public void " ++ v.names.setter ++ "(" ++ type ++ " " ++
      v.member.names.field ++ ")") := by
    intro a
    repeat' apply Turn.append
    all_goals first | exact Neutral.turn (by assumption) | exact .lit rfl
  have hassignment : Neutral ("this." ++ u.names.field ++ " = new " ++ v.names.wrapper ++ "(" ++
      v.member.names.field ++ ");") := by
    intro a
    repeat' apply Turn.append
    all_goals first | exact Neutral.turn (by assumption) | exact .lit rfl
  have hgetter : Neutral ("public " ++ type ++ " " ++ v.names.getter ++ "()") :=
    (((Neutral.append (fun _ => .lit rfl) ht).append fun _ => .lit rfl).append
      hv.names.getter).append fun _ => .lit rfl
  have hresult : Neutral ("return " ++ u.names.field ++ " instanceof " ++ v.names.wrapper ++
      " ? ((" ++ v.names.wrapper ++ ") " ++ u.names.field ++ ")." ++ v.member.names.field ++
      " : " ++ fallback ++ ";") := by
    intro a
    repeat' apply Turn.append
    all_goals first | exact Neutral.turn (by assumption) | exact .lit rfl
  refine Yields.pure (.cons (.braced hsetter (.line hassignment)) (.cons .blank ?_))
  exact .cons (.braced hgetter (.line hresult)) .blank

theorem unionAccessorSteps_balances : Balances (unionAccessorSteps ctx u) := by
  have hunion := neutral_of_isIdentifier hu.names.field
  have hgetter := neutral_of_isIdentifier hu.names.caseGetter
  have hcase := hu.names.caseEnum
  have hnotSet := hu.names.notSet
  refine (Yields.mapM fun v hv => accessorSteps_balances hctx hu (hu.variants v hv)).bind
    fun accessors haccessors => Yields.pure ?_
  have hhead : Neutral ("public " ++ u.names.caseEnum ++ " " ++ u.names.caseGetter ++ "()") :=
    (((Neutral.append (fun _ => .lit rfl) hcase).append fun _ => .lit rfl).append hgetter).append
      fun _ => .lit rfl
  have hresult : Neutral ("return " ++ u.names.field ++ " == null ? " ++ u.names.caseEnum ++ "." ++
      u.names.notSet ++ " : " ++ u.names.field ++ "." ++ u.names.caseGetter ++ "();") := by
    intro a
    repeat' apply Turn.append
    all_goals first | exact Neutral.turn (by assumption) | exact .lit rfl
  exact ((Balanced.declared hu.names.caseGetter hhead (.line hresult)).append .blank).append
    (balanced_of_forall₂ haccessors)

end Unions

/-- An outline of proper shapes, extensions and enums. -/
inductive Outline.Proper : Outline → Prop
  | node {shape : Shape} {extensions : List Extension} {enums : List EnumShape}
      {nested : List Outline} : shape.Proper → (∀ x ∈ extensions, x.Proper) →
      (∀ e ∈ enums, e.Proper) → (∀ o ∈ nested, o.Proper) →
        (Outline.node shape extensions enums nested).Proper

section Messages

variable {ctx : Context} (f : Schema.File) {s : Shape} {m : Member}

theorem fieldSteps_balances (hctx : ctx.Proper) (hm : m.Proper) :
    Balances (fieldSteps ctx f m) := by
  refine (Property.type_gives hctx _).bind fun type ht => ?_
  refine (initializer_gives hctx hm.names.defaultConst).bind fun initial hi => ?_
  have hremark : Remark ("// " ++ m.property.describe f.dialect) :=
    (Remark.lit (by decide)).append (hm.property.described f.dialect)
  have hfield := neutral_of_isIdentifier hm.names.field
  refine Yields.pure (.append (.append (.append (.append (balanced_leading f _) (.remark hremark))
    (balanced_deprecatedMark _)) (.annotated hm.names.field (.append (.append ?_ hfield) ?_)))
      (balanced_trailing f _))
  · exact (Neutral.append (fun _ => .lit rfl) ht).append fun _ => .lit rfl
  · split
    · exact (Neutral.append (fun _ => .lit rfl) (hi _ rfl)).append fun _ => .lit rfl
    · exact fun _ => .lit rfl

theorem itemSteps_balances (hctx : ctx.Proper) {item : Item} (h : item.Proper) :
    Balances (itemSteps ctx f item) := by
  cases item with
  | field m =>
    exact (fieldSteps_balances f hctx h).bind fun steps hs => Yields.pure (hs.append .blank)
  | union u =>
    exact (unionSteps_balances f hctx h).bind fun steps hs => Yields.pure (hs.append .blank)

theorem balanced_numberStep (hm : m.Proper) : Balanced [numberStep m] := by
  refine .line ((Neutral.append ?_ (neutral_int _)).append fun _ => .lit rfl)
  exact (Neutral.append (fun _ => .lit rfl) hm.names.numberConst).append fun _ => .lit rfl

theorem defaultSteps_balances (hctx : ctx.Proper) (hm : m.Proper) :
    Balances (defaultSteps ctx m) := by
  unfold defaultSteps
  split
  · next constant value hc _ =>
    have hconstant := hm.names.defaultConst constant hc
    refine (defaultValue_gives hctx hm.property).bind fun literal hl => ?_
    split
    · refine (Value.type_gives hctx false value).bind fun type ht => Yields.pure (.line ?_)
      have hliteral := hl _ rfl
      intro a
      repeat' apply Turn.append
      all_goals first | exact Neutral.turn (by assumption) | exact .lit rfl
    · exact Yields.pure .nil
  · exact Yields.pure .nil

/-- The expressions of the text form are neutral; labels are quoted where they are written. -/
theorem shownParts_gives (hs : s.Proper) {members : List Member} (hm : ∀ m ∈ members, m.Proper)
    (seen : List Nat) :
    Yields Imports.Tidy (shownParts s seen members) fun parts => ∀ p ∈ parts, Neutral p.2 := by
  induction members generalizing seen with
  | nil => exact Yields.pure (by simp)
  | cons m members ih =>
    rw [List.forall_mem_cons] at hm
    have hrest := fun seen => ih hm.2 seen
    unfold shownParts
    split
    · split
      · next u hu =>
        have hu := hs.unions u (List.mem_of_getElem? (Option.join_eq_some_iff.mp hu))
        split
        · exact hrest _
        · refine (hrest _).bind fun parts hp => Yields.pure ?_
          exact List.forall_mem_cons.mpr ⟨neutral_of_isIdentifier hu.names.field, hp⟩
      · exact hrest _
    · refine (shown_gives _ (neutral_of_isIdentifier hm.1.names.field)).bind fun shown h => ?_
      refine (hrest _).bind fun parts hp => Yields.pure ?_
      exact List.forall_mem_cons.mpr ⟨h, hp⟩

theorem balanced_toStringSteps (className : String) {parts : List (String × String)}
    (hp : ∀ p ∈ parts, Neutral p.2) : Balanced (toStringSteps className parts) := by
  have hreturn : ∀ shown trail, Neutral trail → Neutral ("return " ++ Text.quoted shown ++ trail) :=
    fun shown trail ht => (Neutral.append (fun _ => .lit rfl) (neutral_quoted shown)).append ht
  have hparts : Balanced (parts.mapIdx shownPartStep) := by
    rw [List.mapIdx_eq_zipIdx_map]
    refine .map fun p h => .line ?_
    have hshown := hp p.1 (List.fst_mem_of_mem_zipIdx h)
    refine (Neutral.append ?_ fun _ => .lit rfl).append hshown
    exact Neutral.append (fun _ => .lit rfl) (neutral_quoted _)
  refine .cons (.line fun _ => .lit rfl) (.braced (fun _ => .lit rfl) ?_)
  split
  · exact .line (hreturn _ _ fun _ => .lit rfl)
  · refine (Balanced.append (.line ?_) hparts).append (.line fun _ => .lit rfl)
    exact Neutral.append (fun _ => .lit rfl) (neutral_quoted _)

theorem memberSteps_balances (hctx : ctx.Proper) (hs : s.Proper) {extensions : List Extension}
    (hx : ∀ x ∈ extensions, x.Proper) : Balances (memberSteps ctx f s extensions) := by
  have hunions : ∀ u ∈ s.unions.filterMap id, u.Proper := by
    intro u hu
    obtain ⟨_, hmem, rfl⟩ := List.mem_filterMap.mp hu
    exact hs.unions u hmem
  refine (Yields.mapM fun i hi => itemSteps_balances f hctx (hs.items i hi)).bind
    fun items hitems => ?_
  refine (Yields.mapM fun m hm => defaultSteps_balances hctx (hs.members m hm)).bind
    fun defaults hdefaults => ?_
  refine (Yields.mapM fun u hu => unionAccessorSteps_balances hctx (hunions u hu)).bind
    fun accessors haccessors => ?_
  refine (shownParts_gives hs hs.members []).bind fun parts hparts => Yields.pure ?_
  refine .append (.append (.append (.append (.append (.append (.append (.append (.append (.append
    ?_ ?_) ?_) ?_) .blank) ?_) ?_) .blank) ?_) ?_) .blank
  · exact balanced_trailing f _
  · exact balanced_of_forall₂ hitems
  · exact .map fun m hm => balanced_numberStep (hs.members m hm)
  · exact balanced_of_forall₂ hdefaults
  · exact .flatMap fun x h => balanced_extensionSteps f (hx x h)
  · exact .map fun range _ => balanced_rangeStep range
  · exact balanced_of_forall₂ haccessors
  · exact balanced_toStringSteps _ hparts

theorem balanced_enums {enums : List EnumShape} (h : ∀ e ∈ enums, e.Proper) :
    Balanced (enums.flatMap fun e => enumSteps f e ++ [.blank]) :=
  .flatMap fun e he => (balanced_enumSteps f (h e he)).append .blank

mutual

theorem messageSteps_balances (hctx : ctx.Proper) {modifiers : String} (hmod : Neutral modifiers) :
    ∀ o : Outline, o.Proper → Balances (messageSteps ctx f modifiers o)
  | .node shape extensions enums nested, h => by
    obtain ⟨hs, hx, he, hn⟩ := h
    unfold messageSteps
    refine (memberSteps_balances f hctx hs hx).bind fun members hmembers => ?_
    refine (nestedSteps_balances hctx nested hn).bind fun classes hclasses => Yields.pure ?_
    have hname : Neutral (modifiers ++ "class " ++ shape.names.className ++ "") :=
      ((hmod.append fun _ => .lit rfl).append
        (neutral_of_isIdentifier hs.names.className)).append neutral_empty
    refine ((balanced_leading f _).append (balanced_deprecatedMark _)).append ?_
    exact .declared hs.names.className hname
      ((hmembers.append (balanced_enums f he)).append hclasses)

theorem nestedSteps_balances (hctx : ctx.Proper) :
    ∀ os : List Outline, (∀ o ∈ os, o.Proper) → Balances (nestedSteps ctx f os)
  | [], _ => Yields.pure .nil
  | o :: r, h => by
    rw [List.forall_mem_cons] at h
    unfold nestedSteps
    refine (messageSteps_balances hctx (fun _ => .lit rfl) o h.1).bind fun steps hs => ?_
    refine (nestedSteps_balances hctx r h.2).bind fun rest hr => Yields.pure ?_
    exact (hs.append .blank).append hr

end

end Messages

end ProtoJava.Bean
