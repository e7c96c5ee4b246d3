import ProtoJava.Bean.File
import ProtoJava.Proofs.Java.Pages
import ProtoJava.Proofs.Mapping.Referring

/-! # Names annotated in beans

Which declarations the steps of a bean annotate, and by which names, whatever classes have been
named before.
-/

namespace ProtoJava.Java

section Snippets

variable {steps : List Step} {ls : List Label}

theorem Marked.braced (head : String) (h : Marked steps ls) : Marked [braced head steps] ls :=
  h.block _ _

/-- A line that goes on after the annotated name. -/
theorem anchored_of_mem {name trail : String} {c : Char} (hc : c ∈ trail.toList) (hn : c ≠ '\n') :
    Anchored name trail :=
  Or.inl ⟨c, hc, hn⟩

theorem Marked.declared (path : Schema.Path) (lead name trail : String) (h : Marked steps ls) :
    Marked (declared path lead name trail steps) ((path, name) :: ls) := by
  have ha : Anchored name (trail ++ " \x7b") := by
    refine anchored_of_mem (c := '\x7b') ?_ (by decide)
    rw [String.toList_append]
    exact List.mem_append_right _ (by decide)
  exact (Marked.annotated path lead ha).cons (h.body _)

theorem marked_comment (text : Option String) : Marked (commentSteps text) [] := by
  cases text with
  | none => exact .nil
  | some text => exact ⟨⟨trivial, trivial⟩, rfl⟩

theorem marked_leading (f : Schema.File) (path : Schema.Path) : Marked (leading f path) [] :=
  marked_comment _

theorem marked_trailing (f : Schema.File) (path : Schema.Path) : Marked (trailing f path) [] :=
  marked_comment _

theorem marked_deprecatedMark (deprecated : Bool) : Marked (deprecatedMark deprecated) [] := by
  cases deprecated
  · exact .nil
  · exact .line _

theorem marked_numberMembers (name : String) : Marked (numberMembers name) [] :=
  (Marked.line _).cons <| Marked.blank.cons <| ((Marked.line _).braced _).cons <|
    Marked.blank.cons <| (Marked.line _).braced _

theorem marked_forNumberMethod (name : String) (cases_ : List (Int × String)) {others : List Step}
    (h : Marked others []) : Marked [forNumberMethod name cases_ others] [] := by
  refine ((Marked.append (Marked.lines ?_) h).braced _).braced _
  simp only [List.mem_map]
  rintro s ⟨⟨number, constant⟩, -, rfl⟩
  exact ⟨_, rfl⟩

end Snippets

end ProtoJava.Java

namespace ProtoJava.Bean

open Java
open Mapping

/-- The declarations of an enum with their names. -/
def EnumShape.labels (e : EnumShape) : List Label :=
  (e.type.path, e.names.className) ::
    (e.type.values.zip e.names.constants).map fun p => (p.1.path, p.2)

def Extension.label (x : Extension) : Label :=
  (x.property.field.path, x.names.numberConst)

def memberLabel (m : Member) : Label :=
  (m.property.field.path, m.names.field)

/-- The declarations of a item with their names, accessors apart. -/
def itemLabels : Item → List Label
  | .field m => [memberLabel m]
  | .union u => u.variants.map (memberLabel ·.member) ++ [(u.oneof.path, u.names.field)]

def accessorLabel (u : Union) : Label :=
  (u.oneof.path, u.names.caseGetter)

section Enums

theorem marked_constantSteps (f : Schema.File) (e : EnumShape) (i : Nat) (v : Schema.EnumValue)
    (constant : String) : Marked (constantSteps f e i v constant) [(v.path, constant)] := by
  have hc : Marked [.annotated v.path "" constant
      ("(" ++ toString v.number ++ ")" ++ if i + 1 = e.type.values.length then ";" else ",")]
      [(v.path, constant)] := by
    refine Marked.annotated _ _ (anchored_of_mem (c := '(') ?_ (by decide))
    simp [String.toList_append]
  rw [constantSteps]
  refine ((((marked_leading f v.path).append (?_ : Marked _ [])).append
    (marked_deprecatedMark _)).append hc).append (marked_trailing f v.path)
  cases v.aliasOf with
  | none => exact .nil
  | some first => exact .line _

theorem marked_constantsSteps (f : Schema.File) (e : EnumShape) :
    Marked (constantsSteps f e)
      ((e.type.values.zip e.names.constants).map fun p => (p.1.path, p.2)) := by
  have hend : Marked (if e.type.values.isEmpty then [Step.line ";"] else []) [] := by
    split
    · exact .line _
    · exact .nil
  refine hend.append ?_
  rw [← List.flatMap_singleton' (l := List.map _ _), List.flatMap_map]
  refine Marked.flatten ?_
  rw [List.forall₂_iff_get]
  refine ⟨by simp, fun k hk hk' => ?_⟩
  simpa using marked_constantSteps f e k _ _

theorem marked_enumSteps (f : Schema.File) (e : EnumShape) : Marked (enumSteps f e) e.labels := by
  have hbody := (((marked_trailing f e.type.path).append (marked_constantsSteps f e)).append
    Marked.blank).append (marked_numberMembers e.names.className)
  have hnumber := marked_forNumberMethod e.names.className e.cases
    (Marked.line ("default: return " ++ e.names.constants.headD "null" ++ ";"))
  have hall := ((marked_leading f e.type.path).append
    (marked_deprecatedMark e.type.deprecated)).append
      (Marked.declared e.type.path "public enum " e.names.className ""
        (hbody.append (Marked.blank.cons hnumber)))
  exact hall.of_eq (by simp [EnumShape.labels])

theorem marked_extensionSteps (f : Schema.File) (x : Extension) :
    Marked (extensionSteps f x) [x.label] := by
  have hn : Marked [.annotated x.property.field.path "public static final int "
      x.names.numberConst (" = " ++ toString x.property.field.number ++ ";")] [x.label] := by
    refine Marked.annotated _ _ (anchored_of_mem (c := '=') ?_ (by decide))
    simp [String.toList_append]
  exact (marked_leading f x.property.field.path).append <|
    (Marked.line _).cons <| hn.cons <| (Marked.line _).cons .blank

theorem marked_holderSteps (f : Schema.File) (modifiers name : String)
    (extensions : List Extension) :
    Marked (holderSteps f modifiers name extensions) (extensions.map Extension.label) := by
  have hx : Marked (extensions.flatMap (extensionSteps f)) (extensions.flatMap ([·.label])) :=
    Marked.flatMap fun x _ => marked_extensionSteps f x
  have hall := (Marked.line (modifiers ++ "final class " ++ name ++ " \x7b")).cons
    ((((Marked.line ("private " ++ name ++ "() \x7b\x7d")).cons .blank).append hx).body "\x7d")
  exact hall.of_eq (by simp [List.map_eq_flatMap])

end Enums

section Unions

variable (ctx : Context) (f : Schema.File) (u : Union)

theorem marked_caseEnumStep : Marked [caseEnumStep u] [] := by
  have hc : Marked (caseConstantSteps u) [] := by
    refine (Marked.lines ?_).append (.line _)
    simp only [List.mem_map]
    rintro s ⟨v, -, rfl⟩
    exact ⟨_, rfl⟩
  have hn := marked_forNumberMethod u.names.caseEnum
    (u.variants.map fun v => (variantNumber v, v.names.caseConstant))
    ((Marked.line ("case 0: return " ++ u.names.notSet ++ ";")).cons
      (Marked.line "default: return null;"))
  exact (((hc.append .blank).append (marked_numberMembers u.names.caseEnum)).append
    (Marked.blank.cons hn)).braced _

theorem marked_wrapperStep (v : Variant) (type shownPayload : String) :
    Marked [wrapperStep u v type shownPayload] [memberLabel v.member] := by
  have hp : Marked [.annotated v.member.property.field.path ("public final " ++ type ++ " ")
      v.member.names.field ";"] [memberLabel v.member] :=
    Marked.annotated _ _ (anchored_of_mem (c := ';') (by decide) (by decide))
  exact Marked.braced _ <| hp.cons <| Marked.blank.cons <| ((Marked.line _).braced _).cons <|
    Marked.blank.cons <| (Marked.line _).cons <| ((Marked.line _).braced _).cons <|
    Marked.blank.cons <| (Marked.line _).cons <| (Marked.line _).braced _

theorem variantSteps_marked (v : Variant) :
    Yields AnyImports (variantSteps ctx f u v) fun steps =>
      Marked steps [memberLabel v.member] := by
  refine (Yields.trivial _).bind fun type _ => (Yields.trivial _).bind fun payload _ => ?_
  refine Yields.pure ?_
  exact (((marked_leading f _).append (.line _)).append (marked_deprecatedMark _)).append
    ((marked_wrapperStep u v type payload).cons .blank)

theorem unionSteps_marked :
    Yields AnyImports (unionSteps ctx f u) fun steps =>
      Marked steps (itemLabels (.union u)) := by
  refine (Yields.mapM fun v _ => variantSteps_marked ctx f u v).bind fun variants h => ?_
  refine Yields.pure ?_
  have hfield : Marked [.annotated u.oneof.path ("public " ++ u.names.iface ++ " ") u.names.field
      ";"] [(u.oneof.path, u.names.field)] :=
    Marked.annotated _ _ (anchored_of_mem (c := ';') (by decide) (by decide))
  have hiface : Marked [ifaceStep u] [] := (Marked.line _).braced _
  have htypes := (marked_caseEnumStep u).cons (Marked.blank.cons (hiface.cons .blank))
  have hall := (((marked_leading f u.oneof.path).append htypes).append (Marked.flatten h)).append
    hfield
  exact hall.of_eq (by simp [itemLabels, List.map_eq_flatMap])

theorem accessorSteps_marked (v : Variant) :
    Yields AnyImports (accessorSteps ctx u v) fun steps => Marked steps [] := by
  refine (Yields.trivial _).bind fun type _ => (Yields.trivial _).bind fun fallback _ => ?_
  exact Yields.pure <| ((Marked.line _).braced _).cons <| Marked.blank.cons <|
    ((Marked.line _).braced _).cons .blank

theorem unionAccessorSteps_marked :
    Yields AnyImports (unionAccessorSteps ctx u) fun steps =>
      Marked steps [accessorLabel u] := by
  refine (Yields.mapM fun v _ => accessorSteps_marked ctx u v).bind fun accessors h => ?_
  refine Yields.pure ?_
  have hd := Marked.declared u.oneof.path ("public " ++ u.names.caseEnum ++ " ") u.names.caseGetter
    "()" (Marked.line ("return " ++ u.names.field ++ " == null ? " ++ u.names.caseEnum ++ "." ++
      u.names.notSet ++ " : " ++ u.names.field ++ "." ++ u.names.caseGetter ++ "();"))
  exact (hd.append .blank).append (Marked.flatten_nil h)

end Unions

/-- The declarations in a message with their names, the classes declared in it apart. -/
def memberLabels (s : Shape) (extensions : List Extension) : List Label :=
  s.items.flatMap itemLabels ++ extensions.map Extension.label ++
    s.unions.reduceOption.map accessorLabel

mutual

/-- The declarations in an outline with their names. -/
def Outline.labels : Outline → List Label
  | .node shape extensions enums nested =>
    (shape.message.path, shape.names.className) ::
      (memberLabels shape extensions ++ enums.flatMap EnumShape.labels ++
        Outline.labelsOfAll nested)

/-- The declarations in outlines with their names. -/
def Outline.labelsOfAll : List Outline → List Label
  | [] => []
  | o :: r => o.labels ++ Outline.labelsOfAll r

end

section Messages

variable (ctx : Context) (f : Schema.File)

theorem fieldSteps_marked (m : Member) :
    Yields AnyImports (fieldSteps ctx f m) fun steps => Marked steps [memberLabel m] := by
  refine (Yields.trivial _).bind fun type _ => (Yields.trivial _).bind fun initial _ => ?_
  refine Yields.pure ?_
  refine ((((marked_leading f _).append (.line _)).append (marked_deprecatedMark _)).append
    (Marked.annotated _ _ (?_ : Anchored m.names.field _))).append (marked_trailing f _)
  refine anchored_of_mem (c := ';') ?_ (by decide)
  cases initial <;> simp [String.toList_append]

theorem itemSteps_marked (i : Item) :
    Yields AnyImports (itemSteps ctx f i) fun steps => Marked steps (itemLabels i) := by
  cases i with
  | field m =>
    exact (fieldSteps_marked ctx f m).bind fun steps h => Yields.pure (h.append .blank)
  | union u =>
    refine (unionSteps_marked ctx f u).bind fun steps h => Yields.pure ?_
    exact (h.append .blank).of_eq (List.append_nil _)

theorem defaultSteps_marked (m : Member) :
    Yields AnyImports (defaultSteps ctx m) fun steps => Marked steps [] := by
  unfold defaultSteps
  split
  · refine (Yields.trivial _).bind fun literal _ => ?_
    split
    · exact (Yields.trivial _).bind fun type _ => Yields.pure (.line _)
    · exact Yields.pure .nil
  · exact Yields.pure .nil

theorem marked_toStringSteps (className : String) (parts : List (String × String)) :
    Marked (toStringSteps className parts) [] := by
  refine (Marked.line _).cons (Marked.braced _ ?_)
  split
  · exact .line _
  · refine ((Marked.line _).append (Marked.lines ?_)).append (.line _)
    simp only [List.mem_mapIdx]
    rintro s ⟨i, hi, rfl⟩
    exact ⟨_, rfl⟩

theorem memberSteps_marked (s : Shape) (extensions : List Extension) :
    Yields AnyImports (memberSteps ctx f s extensions) fun steps =>
      Marked steps (memberLabels s extensions) := by
  refine (Yields.mapM fun i _ => itemSteps_marked ctx f i).bind fun items hi => ?_
  refine (Yields.mapM fun m _ => defaultSteps_marked ctx m).bind fun defaults hd => ?_
  refine (Yields.mapM fun u _ => unionAccessorSteps_marked ctx u).bind fun accessors ha => ?_
  refine (Yields.trivial _).bind fun parts _ => Yields.pure ?_
  have hnumbers : Marked (s.members.map numberStep) [] := by
    refine Marked.lines ?_
    simp only [List.mem_map]
    rintro step ⟨m, -, rfl⟩
    exact ⟨_, rfl⟩
  have hranges : Marked (s.message.extensionRanges.map rangeStep) [] := by
    refine Marked.lines ?_
    simp only [List.mem_map]
    rintro step ⟨⟨start, stop⟩, -, rfl⟩
    simp only [rangeStep]
    split
    · exact ⟨_, rfl⟩
    · split <;> exact ⟨_, rfl⟩
  have hx : Marked (extensions.flatMap (extensionSteps f)) (extensions.flatMap ([·.label])) :=
    Marked.flatMap fun x _ => marked_extensionSteps f x
  have haccessors : Marked accessors.flatten
      (s.unions.reduceOption.flatMap fun u => [accessorLabel u]) := Marked.flatten ha
  have hall := (((((((((marked_trailing f s.message.path).append (Marked.flatten hi)).append
    hnumbers).append (Marked.flatten_nil hd)).append .blank).append hx).append hranges).append
    .blank).append haccessors).append (marked_toStringSteps s.names.className parts)
  exact (hall.append .blank).of_eq (by simp [memberLabels, List.map_eq_flatMap])

mutual

theorem messageSteps_marked (modifiers : String) :
    ∀ o : Outline, Yields AnyImports (messageSteps ctx f modifiers o) fun steps =>
      Marked steps o.labels
  | .node shape extensions enums nested => by
    unfold messageSteps
    refine (memberSteps_marked ctx f shape extensions).bind fun members hm => ?_
    refine (nestedSteps_marked nested).bind fun classes hc => Yields.pure ?_
    have he : Marked (enums.flatMap fun e => enumSteps f e ++ [.blank])
        (enums.flatMap EnumShape.labels) := by
      refine Marked.flatMap fun e _ => ?_
      exact ((marked_enumSteps f e).append .blank).of_eq (List.append_nil _)
    have hall := ((marked_leading f shape.message.path).append
      (marked_deprecatedMark shape.message.deprecated)).append
        (Marked.declared shape.message.path (modifiers ++ "class ") shape.names.className ""
          ((hm.append he).append hc))
    exact hall.of_eq (by simp [Outline.labels])

theorem nestedSteps_marked :
    ∀ os : List Outline, Yields AnyImports (nestedSteps ctx f os) fun steps =>
      Marked steps (Outline.labelsOfAll os)
  | [] => Yields.pure .nil
  | o :: r => by
    unfold nestedSteps
    refine (messageSteps_marked "public static " o).bind fun steps hs => ?_
    refine (nestedSteps_marked r).bind fun rest hr => Yields.pure ?_
    exact ((hs.append .blank).append hr).of_eq (by simp [Outline.labelsOfAll])

end

end Messages

end ProtoJava.Bean
