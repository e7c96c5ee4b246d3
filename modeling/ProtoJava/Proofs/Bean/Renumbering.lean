import ProtoJava.Proofs.Drafts
import ProtoJava.Proofs.Mapping.Referring
import ProtoJava.Proofs.Mapping.Renumbering

/-! # Beans under renumbering

The beans of a file in a renumbered graph are written alike, in every respect in which the comments
of the file are: the same comments give the same beans.
-/

namespace ProtoJava.Java

/-- A relation of parts of sources that holds of what is put together from related parts. -/
structure Congruence (R : List Step → List Step → Prop) : Prop where
  refl : ∀ a, R a a
  append : ∀ {a b c d}, R a b → R c d → R (a ++ c) (b ++ d)
  block : ∀ {header footer a b}, R a b → R [.block header footer a] [.block header footer b]
  body : ∀ {footer a b}, R a b → R [.body footer a] [.body footer b]

namespace Congruence

variable {R : List Step → List Step → Prop} {a b : List Step}

theorem eq : Congruence Eq where
  refl _ := rfl
  append h h' := h ▸ h' ▸ rfl
  block h := h ▸ rfl
  body h := h ▸ rfl

variable (hR : Congruence R)

include hR

theorem cons (s : Step) (h : R a b) : R (s :: a) (s :: b) :=
  hR.append (hR.refl [s]) h

theorem flatten {lists lists' : List (List Step)} (h : List.Forall₂ R lists lists') :
    R lists.flatten lists'.flatten := by
  induction h with
  | nil => exact hR.refl []
  | cons h _ ih => exact hR.append h ih

theorem flatMap {α : Type} {f f' : α → List Step} {l : List α} (h : ∀ x ∈ l, R (f x) (f' x)) :
    R (l.flatMap f) (l.flatMap f') := by
  induction l with
  | nil => exact hR.refl []
  | cons x l ih =>
    rw [List.forall_mem_cons] at h
    exact hR.append h.1 (ih h.2)

theorem declared (path : Schema.Path) (lead name trail : String) (h : R a b) :
    R (declared path lead name trail a) (declared path lead name trail b) :=
  hR.cons _ (hR.body h)

end Congruence

/-- The same file, with comments that are written alike. -/
structure Recommented (R : List Step → List Step → Prop) (f f' : Schema.File) : Prop where
  core : f'.core = f.core
  leading : ∀ path, R (leading f path) (leading f' path)
  trailing : ∀ path, R (trailing f path) (trailing f' path)

theorem Recommented.dialect {R : List Step → List Step → Prop} {f f' : Schema.File}
    (h : Recommented R f f') : f'.dialect = f.dialect :=
  Schema.File.of_core (·.dialect) (fun _ => rfl) h.core

end ProtoJava.Java

namespace ProtoJava.Bean

open Java
open Mapping

section Numbers

variable (ρ : Nat → Nat)

def Extension.renumber (x : Extension) : Extension :=
  { x with property := x.property.renumber ρ }

mutual

def Outline.renumber : Outline → Outline
  | .node shape extensions enums nested =>
    .node (shape.renumber ρ) (extensions.map (·.renumber ρ)) enums (Outline.renumberAll nested)

def Outline.renumberAll : List Outline → List Outline
  | [] => []
  | o :: r => o.renumber :: Outline.renumberAll r

end

/-- The contents of a file that is now `f`. -/
def Contents.renumber (f : Schema.File) (c : Contents) : Contents :=
  { c with
    file := f
    messages := c.messages.map (·.renumber ρ)
    holder := c.holder.map fun p => (p.1, p.2.map (·.renumber ρ)) }

end Numbers

section Steps

variable {ρ : Nat → Nat} {R : List Step → List Step → Prop} (hR : Congruence R)
  {f f' : Schema.File} (hf : Recommented R f f')

include hR hf

section Enums

theorem constantSteps_recommented (e : EnumShape) (i : Nat) (v : Schema.EnumValue)
    (constant : String) : R (constantSteps f e i v constant) (constantSteps f' e i v constant) :=
  hR.append (hR.append (hR.append (hR.append (hf.leading _) (hR.refl _)) (hR.refl _))
    (hR.refl _)) (hf.trailing _)

theorem constantsSteps_recommented (e : EnumShape) :
    R (constantsSteps f e) (constantsSteps f' e) := by
  refine hR.append (hR.refl _) (hR.flatten ?_)
  rw [List.forall₂_iff_get]
  refine ⟨by simp, fun i hi hi' => ?_⟩
  simpa using constantSteps_recommented hR hf e i _ _

theorem enumSteps_recommented (e : EnumShape) : R (enumSteps f e) (enumSteps f' e) := by
  refine hR.append (hR.append (hf.leading _) (hR.refl _)) (hR.declared _ _ _ _ ?_)
  refine hR.append (hR.append (hR.append (hR.append ?_ ?_) (hR.refl _)) (hR.refl _)) (hR.refl _)
  · exact hf.trailing _
  · exact constantsSteps_recommented hR hf e

theorem extensionSteps_recommented (x : Extension) :
    R (extensionSteps f x) (extensionSteps f' (x.renumber ρ)) := by
  have hdescribe : (x.renumber ρ).property.describe f'.dialect =
      x.property.describe f.dialect := by
    rw [hf.dialect]
    exact Property.describe_renumber x.property _
  unfold extensionSteps
  rw [hdescribe]
  exact hR.append (hf.leading _) (hR.refl _)

theorem extensions_recommented (extensions : List Extension) :
    R (extensions.flatMap (extensionSteps f))
      ((extensions.map (·.renumber ρ)).flatMap (extensionSteps f')) := by
  rw [List.flatMap_map]
  exact hR.flatMap fun x _ => extensionSteps_recommented hR hf x

theorem holderSteps_recommented (modifiers name : String) (extensions : List Extension) :
    R (holderSteps f modifiers name extensions)
      (holderSteps f' modifiers name (extensions.map (·.renumber ρ))) :=
  hR.cons _ (hR.body (hR.append (hR.refl _) (extensions_recommented hR hf extensions)))

end Enums

section Unions

variable {ctx ctx' : Context} (h : ctx.Renumbers ρ ctx') (u : Union) (v : Variant)

omit hR hf in
theorem shown_renumber (p : Property) (expression : String) :
    shown (p.renumber ρ) expression = shown p expression := by
  obtain ⟨field, kind, default, nullable⟩ := p
  rcases kind with ⟨v, repeated⟩ | _ | _ | _ | ⟨oneof, v | _ | _⟩ | _
  · rfl
  · rfl
  · rfl
  · rfl
  · rfl
  · rfl
  · rfl
  · rfl

omit hR hf in
theorem variants_renumber {α : Type} (read : Variant → α)
    (hread : ∀ v : Variant, read (v.renumber ρ) = read v) :
    (u.renumber ρ).variants.map read = u.variants.map read := by
  rw [Union.renumber, List.map_map]
  exact List.map_congr_left fun v _ => hread v

omit hR hf in
theorem caseEnumStep_renumber : caseEnumStep (u.renumber ρ) = caseEnumStep u := by
  have hconstants : caseConstantSteps (u.renumber ρ) = caseConstantSteps u := by
    unfold caseConstantSteps
    rw [variants_renumber u _ fun _ => rfl]
    rfl
  unfold caseEnumStep
  rw [hconstants, variants_renumber u _ fun _ => rfl]
  rfl

include h

theorem variantSteps_recommented :
    Alike R (variantSteps ctx f u v) (variantSteps ctx' f' (u.renumber ρ) (v.renumber ρ)) := by
  have htype : (v.renumber ρ).member.property.type ctx' = v.member.property.type ctx :=
    Property.type_renumber h v.member.property
  have hshown : shown (v.renumber ρ).member.property (v.renumber ρ).member.names.field =
      shown v.member.property v.member.names.field :=
    shown_renumber v.member.property _
  have hdescribe : (v.renumber ρ).member.property.describe f'.dialect =
      v.member.property.describe f.dialect := by
    rw [hf.dialect]
    exact Property.describe_renumber v.member.property _
  unfold variantSteps
  dsimp only
  rw [htype, hshown, hdescribe]
  refine .after _ fun type => .after _ fun payload => .pure ?_
  exact hR.append (hR.append (hR.append (hf.leading _) (hR.refl _)) (hR.refl _)) (hR.refl _)

theorem unionSteps_recommented :
    Alike R (unionSteps ctx f u) (unionSteps ctx' f' (u.renumber ρ)) := by
  have hvariants : Alike (List.Forall₂ R) (u.variants.mapM (variantSteps ctx f u))
      ((u.renumber ρ).variants.mapM (variantSteps ctx' f' (u.renumber ρ))) := by
    rw [Union.renumber, List.mapM_map]
    exact .mapM fun v _ => variantSteps_recommented hR hf h u v
  refine hvariants.bind fun variants variants' hlists => .pure ?_
  rw [caseEnumStep_renumber]
  exact hR.append (hR.append (hR.append (hf.leading _) (hR.refl _)) (hR.flatten hlists)) (hR.refl _)

omit hR hf in
theorem accessorSteps_renumber :
    accessorSteps ctx' (u.renumber ρ) (v.renumber ρ) = accessorSteps ctx u v := by
  have htype : (v.renumber ρ).member.property.type ctx' = v.member.property.type ctx :=
    Property.type_renumber h v.member.property
  have hfallback : ∀ constant, (v.renumber ρ).member.property.fallback ctx' constant =
      v.member.property.fallback ctx constant :=
    Property.fallback_renumber h v.member.property
  unfold accessorSteps
  rw [htype, hfallback]
  rfl

omit hR hf in
theorem unionAccessorSteps_renumber :
    unionAccessorSteps ctx' (u.renumber ρ) = unionAccessorSteps ctx u := by
  have haccessors : (u.renumber ρ).variants.mapM (accessorSteps ctx' (u.renumber ρ)) =
      u.variants.mapM (accessorSteps ctx u) := by
    rw [Union.renumber, List.mapM_map]
    exact congrArg (List.mapM · u.variants) (funext fun v => accessorSteps_renumber h u v)
  unfold unionAccessorSteps
  rw [haccessors]
  rfl

end Unions

section Messages

variable {ctx ctx' : Context} (h : ctx.Renumbers ρ ctx') (s : Shape) (m : Member)

include h

theorem fieldSteps_recommented :
    Alike R (fieldSteps ctx f m) (fieldSteps ctx' f' (m.renumber ρ)) := by
  have htype : (m.renumber ρ).property.type ctx' = m.property.type ctx :=
    Property.type_renumber h m.property
  have hinitial : ∀ constant, (m.renumber ρ).property.initializer ctx' constant =
      m.property.initializer ctx constant :=
    Property.initializer_renumber h m.property
  have hdescribe : (m.renumber ρ).property.describe f'.dialect =
      m.property.describe f.dialect := by
    rw [hf.dialect]
    exact Property.describe_renumber m.property _
  unfold fieldSteps
  dsimp only
  rw [htype, hinitial, hdescribe]
  refine .after _ fun type => .after _ fun initial => .pure ?_
  refine hR.append (hR.append (hR.append (hR.append ?_ (hR.refl _)) (hR.refl _)) (hR.refl _)) ?_
  · exact hf.leading _
  · exact hf.trailing _

theorem itemSteps_recommented (item : Item) :
    Alike R (itemSteps ctx f item) (itemSteps ctx' f' (item.renumber ρ)) := by
  cases item with
  | field m =>
    exact (fieldSteps_recommented hR hf h m).bind fun _ _ hs => .pure (hR.append hs (hR.refl _))
  | union u =>
    exact (unionSteps_recommented hR hf h u).bind fun _ _ hs => .pure (hR.append hs (hR.refl _))

omit hR hf in
theorem defaultSteps_renumber : defaultSteps ctx' (m.renumber ρ) = defaultSteps ctx m := by
  have hvalue : (m.renumber ρ).property.value? = m.property.value?.map (Value.renumber ρ) :=
    Property.value?_renumber m.property
  have hdefault : (m.renumber ρ).property.defaultValue ctx' = m.property.defaultValue ctx :=
    Property.defaultValue_renumber h m.property
  have hnames : (m.renumber ρ).names = m.names := rfl
  unfold defaultSteps
  rw [hvalue, hdefault, hnames]
  rcases m.names.defaultConst with _ | constant
  · rfl
  · cases m.property.value? with
    | none => rfl
    | some value => simp only [Option.map_some, Value.type_renumber h]

omit hR hf h in
theorem shownParts_renumber (seen : List Nat) (members : List Member) :
    shownParts (s.renumber ρ) seen (members.map (·.renumber ρ)) = shownParts s seen members := by
  induction members generalizing seen with
  | nil => rfl
  | cons m members ih =>
    have hkind : (m.renumber ρ).property.kind = m.property.kind.renumber ρ := rfl
    have hshown : shown (m.renumber ρ).property (m.renumber ρ).names.field =
        shown m.property m.names.field :=
      shown_renumber m.property _
    have hnames : (m.renumber ρ).names = m.names := rfl
    rw [List.map_cons, shownParts, shownParts, hkind, hshown, hnames]
    cases m.property.kind with
    | variant oneof payload =>
      dsimp only [Kind.renumber]
      rw [Shape.union_renumber]
      cases s.unions[oneof]?.join with
      | none => exact ih seen
      | some u =>
        simp only [Option.map_some, ih]
        rfl
    | _ => simp only [Kind.renumber, ih]

theorem memberSteps_recommented (extensions : List Extension) :
    Alike R (memberSteps ctx f s extensions)
      (memberSteps ctx' f' (s.renumber ρ) (extensions.map (·.renumber ρ))) := by
  have hitems : Alike (List.Forall₂ R) (s.items.mapM (itemSteps ctx f))
      ((s.renumber ρ).items.mapM (itemSteps ctx' f')) := by
    rw [Shape.items_renumber, List.mapM_map]
    exact .mapM fun item _ => itemSteps_recommented hR hf h item
  have hdefaults : (s.renumber ρ).members.mapM (defaultSteps ctx') =
      s.members.mapM (defaultSteps ctx) := by
    rw [Shape.renumber, List.mapM_map]
    exact congrArg (List.mapM · s.members) (funext fun m => defaultSteps_renumber h m)
  have haccessors : ((s.renumber ρ).unions.filterMap id).mapM (unionAccessorSteps ctx') =
      (s.unions.filterMap id).mapM (unionAccessorSteps ctx) := by
    have hunions : (s.renumber ρ).unions.filterMap id =
        (s.unions.filterMap id).map (Union.renumber ρ) := by
      rw [Shape.renumber, List.filterMap_map, List.map_filterMap]
      rfl
    rw [hunions, List.mapM_map]
    exact congrArg (List.mapM · (s.unions.filterMap id))
      (funext fun u => unionAccessorSteps_renumber h u)
  have hparts : shownParts (s.renumber ρ) [] (s.renumber ρ).members =
      shownParts s [] s.members := shownParts_renumber s [] s.members
  have hnumbers : (s.renumber ρ).members.map numberStep = s.members.map numberStep := by
    rw [Shape.renumber, List.map_map]
    rfl
  unfold memberSteps
  rw [hdefaults, haccessors, hparts, hnumbers]
  refine hitems.bind fun items items' hlists => ?_
  refine .after _ fun defaults => .after _ fun accessors => .after _ fun parts => .pure ?_
  refine hR.append (hR.append (hR.append (hR.append (hR.append (hR.append (hR.append (hR.append
    (hR.append (hR.append (hf.trailing _) (hR.flatten hlists)) (hR.refl _)) (hR.refl _))
      (hR.refl _)) ?_) (hR.refl _)) (hR.refl _)) (hR.refl _)) (hR.refl _)) (hR.refl _)
  exact extensions_recommented hR hf extensions

end Messages

theorem enums_recommented (enums : List EnumShape) :
    R (enums.flatMap fun e => enumSteps f e ++ [.blank])
      (enums.flatMap fun e => enumSteps f' e ++ [.blank]) :=
  hR.flatMap fun e _ => hR.append (enumSteps_recommented hR hf e) (hR.refl _)

end Steps

section Outlines

variable {ρ : Nat → Nat} {R : List Step → List Step → Prop} {f f' : Schema.File}
  {ctx ctx' : Context}

mutual

theorem messageSteps_recommented (hR : Congruence R) (hf : Recommented R f f')
    (h : ctx.Renumbers ρ ctx') (modifiers : String) : ∀ o : Outline,
      Alike R (messageSteps ctx f modifiers o) (messageSteps ctx' f' modifiers (o.renumber ρ))
  | .node shape extensions enums nested => by
    unfold Outline.renumber messageSteps
    refine (memberSteps_recommented hR hf h shape extensions).bind fun members members' hm => ?_
    refine (nestedSteps_recommented hR hf h nested).bind fun classes classes' hc => .pure ?_
    refine hR.append (hR.append (hf.leading _) (hR.refl _)) (hR.declared _ _ _ _ ?_)
    exact hR.append (hR.append hm (enums_recommented hR hf enums)) hc

theorem nestedSteps_recommented (hR : Congruence R) (hf : Recommented R f f')
    (h : ctx.Renumbers ρ ctx') : ∀ os : List Outline,
      Alike R (nestedSteps ctx f os) (nestedSteps ctx' f' (Outline.renumberAll ρ os))
  | [] => .pure (hR.refl [])
  | o :: r => by
    unfold Outline.renumberAll nestedSteps
    refine (messageSteps_recommented hR hf h "public static " o).bind fun steps steps' hs => ?_
    refine (nestedSteps_recommented hR hf h r).bind fun rest rest' hr => .pure ?_
    exact hR.append (hR.append hs (hR.refl _)) hr

end

theorem Outline.renumberAll_eq (os : List Outline) :
    Outline.renumberAll ρ os = os.map (Outline.renumber ρ) := by
  induction os with
  | nil => rfl
  | cons o os ih => rw [Outline.renumberAll, ih, List.map_cons]

theorem Outline.className_renumber (o : Outline) : (o.renumber ρ).className = o.className := by
  obtain ⟨shape, extensions, enums, nested⟩ := o
  rw [Outline.renumber]
  rfl

mutual

theorem Outline.innerNames_renumber : ∀ o : Outline, (o.renumber ρ).innerNames = o.innerNames
  | .node shape extensions enums nested => by
    rw [Outline.renumber, Outline.innerNames, Outline.innerNames,
      Outline.namesOfAll_renumber nested]
    rfl

theorem Outline.namesOfAll_renumber : ∀ os : List Outline,
    Outline.namesOfAll (Outline.renumberAll ρ os) = Outline.namesOfAll os
  | [] => rfl
  | o :: r => by
    rw [Outline.renumberAll, Outline.namesOfAll, Outline.namesOfAll, Outline.className_renumber,
      Outline.innerNames_renumber o, Outline.namesOfAll_renumber r]

end

theorem Extension.of_renumber (h : ctx.Renumbers ρ ctx') (m : Option Schema.Message)
    {field : Schema.Field} (hfield : Schema.Index.Agree ρ ctx.index ctx'.index field)
    (names : Naming.ExtensionNames) : Extension.of ctx' m field names =
      (Extension.of ctx m field names).map (Option.map (Extension.renumber ρ)) := by
  refine bind_eq_map (classify_renumber h hfield m) fun p _ => ?_
  have hkind : (p.renumber ρ).kind = p.kind.renumber ρ := rfl
  rw [hkind]
  cases hk : p.kind with
  | extension extendee payload repeated =>
    dsimp only [Kind.renumber]
    rw [h.graph.message]
    rfl
  | _ => rfl

theorem extensionsOf_renumber (h : ctx.Renumbers ρ ctx') (m : Option Schema.Message)
    {fields : List Schema.Field}
    (hfields : ∀ field ∈ fields, Schema.Index.Agree ρ ctx.index ctx'.index field)
    (names : List Naming.ExtensionNames) : extensionsOf ctx' m fields names =
      (extensionsOf ctx m fields names).map (List.map (Extension.renumber ρ)) := by
  have hextension : ∀ p ∈ fields.zip names, Extension.of ctx' m p.1 p.2 =
      (Extension.of ctx m p.1 p.2).map (Option.map (Extension.renumber ρ)) :=
    fun p hp => Extension.of_renumber h m (hfields p.1 (List.of_mem_zip hp).1) p.2
  refine bind_eq_map (mapM_eq_map hextension) fun extensions _ => congrArg Except.ok ?_
  rw [List.map_filterMap, List.filterMap_map]
  rfl

theorem EnumShape.of_renumber (h : ctx.Renumbers ρ ctx') (file i : Nat) :
    EnumShape.of ctx' (ρ file) i = EnumShape.of ctx file i := by
  have htype := h.graph.enumType ⟨file, i⟩
  have hnames := h.names.enumNames ⟨file, i⟩
  exact congrArg₂ EnumShape.mk htype hnames

theorem Outline.of_renumber (h : ctx.Renumbers ρ ctx') (file i : Nat) :
    Outline.of ctx' (ρ file) i = (Outline.of ctx file i).map (Outline.renumber ρ) := by
  induction hn : (ctx.graph.file file).messages.length - i using Nat.strongRecOn generalizing i with
  | ind n ih =>
    have hnested : nestedClasses (ctx'.graph.file (ρ file)) i =
        nestedClasses (ctx.graph.file file) i :=
      h.graph.of_core (nestedClasses · i) (fun _ => rfl) file
    rw [Outline.of_eq, Outline.of_eq, hnested]
    refine bind_eq_map (Shape.of_renumber h ⟨file, i⟩) fun shape hshape => ?_
    have hfields : ∀ f ∈ shape.message.extensions, Schema.Index.Agree ρ ctx.index ctx'.index f := by
      intro f hf
      rw [Shape.of_message hshape] at hf
      exact h.agree _ _ (Schema.Graph.declares_extension hf)
    refine bind_eq_map (extensionsOf_renumber h _ hfields _) fun extensions _ => ?_
    have houtline : ∀ j ∈ nestedClasses (ctx.graph.file file) i,
        Outline.of ctx' (ρ file) j = (Outline.of ctx file j).map (Outline.renumber ρ) := by
      intro j hj
      have hlt := lt_of_mem_nestedClasses hj
      exact ih _ (by omega) j rfl
    refine bind_eq_map (mapM_eq_map houtline) fun nested _ => ?_
    have henums : EnumShape.of ctx' (ρ file) = EnumShape.of ctx file :=
      funext (EnumShape.of_renumber h file)
    rw [← Outline.renumberAll_eq, henums]
    rfl

theorem Contents.of_renumber (h : ctx.Renumbers ρ ctx') (file : Nat) : Contents.of ctx' (ρ file) =
    (Contents.of ctx file).map (Contents.renumber ρ (ctx'.graph.file (ρ file))) := by
  have htop : ((ctx'.graph.file (ρ file)).topMessages.filter fun i =>
        !((ctx'.graph.file (ρ file)).message i).mapEntry) =
      (ctx.graph.file file).topMessages.filter fun i =>
        !((ctx.graph.file file).message i).mapEntry :=
    h.graph.of_core (fun f => f.topMessages.filter fun i => !(f.message i).mapEntry)
      (fun _ => rfl) file
  have hextensions : (ctx'.graph.file (ρ file)).extensions = (ctx.graph.file file).extensions :=
    h.graph.of_core (·.extensions) (fun _ => rfl) file
  have henums : (ctx'.graph.file (ρ file)).topEnums.map (EnumShape.of ctx' (ρ file)) =
      (ctx.graph.file file).topEnums.map (EnumShape.of ctx file) := by
    rw [h.graph.of_core (·.topEnums) (fun _ => rfl) file, funext (EnumShape.of_renumber h file)]
  unfold Contents.of
  dsimp only
  rw [htop, hextensions, henums, h.names]
  refine bind_eq_map (mapM_eq_map fun i _ => Outline.of_renumber h file i) fun messages _ => ?_
  have hfields : ∀ f ∈ (ctx.graph.file file).extensions,
      Schema.Index.Agree ρ ctx.index ctx'.index f :=
    fun f hf => h.agree _ _ (Schema.Graph.declares_fileExtension hf)
  refine bind_eq_map (extensionsOf_renumber h none hfields _) fun extensions _ => ?_
  refine congrArg Except.ok ?_
  rw [Contents.renumber, Option.map_map]
  rfl

end Outlines

section Drafts

/-- Drafts of the same class, with related steps. -/
structure Draft.Alike (R : List Step → List Step → Prop) (d d' : Draft) : Prop where
  className : d'.className = d.className
  nested : d'.nested = d.nested
  steps : Mapping.Alike R d.steps d'.steps

variable {ρ : Nat → Nat} {R : List Step → List Step → Prop} {c : Contents} {f' : Schema.File}
  {ctx ctx' : Context}

/-- What a source file has besides its steps does not change with the numbers of files. -/
theorem sourceFile_renumber (hf : f'.core = c.file.core) (className : String)
    (nested : List String) (steps : Referring (List Step)) :
    sourceFile (c.renumber ρ f') className nested steps = sourceFile c className nested steps := by
  have hname : f'.name = c.file.name := Schema.File.of_core (·.name) (fun _ => rfl) hf
  have hprologue : ∀ imports, prologue c.package f' imports = prologue c.package c.file imports :=
    prologue_of_core hf c.package
  have hpackage : (c.renumber ρ f').package = c.package := rfl
  have hfile : (c.renumber ρ f').file = f' := rfl
  rw [sourceFile_eq, sourceFile_eq, hpackage, hfile, hname, hprologue]

theorem wrapperSteps_recommented (hR : Congruence R) (hf : Recommented R c.file f')
    (h : ctx.Renumbers ρ ctx') (wrapper : String) :
    Mapping.Alike R (wrapperSteps ctx c wrapper) (wrapperSteps ctx' (c.renumber ρ f') wrapper) := by
  have hmessages : (c.renumber ρ f').messages = Outline.renumberAll ρ c.messages :=
    (Outline.renumberAll_eq c.messages).symm
  unfold wrapperSteps
  rw [hmessages]
  refine (nestedSteps_recommented hR hf h c.messages).bind fun messages messages' hm => .pure ?_
  refine hR.declared _ _ _ _ (hR.append (hR.append (hR.append (hR.refl _) hm) ?_) ?_)
  · exact enums_recommented hR hf c.enums
  · have hholder : (c.renumber ρ f').holder =
        c.holder.map fun p => (p.1, p.2.map (·.renumber ρ)) := rfl
    rw [hholder]
    rcases c.holder with _ | ⟨name, extensions⟩
    · exact hR.refl []
    · exact hR.append (holderSteps_recommented hR hf _ name extensions) (hR.refl [])

/-- In a renumbered graph a file has the same beans to write, with steps that are related as its
comments are. -/
theorem Contents.drafts_renumber (hR : Congruence R) (hf : Recommented R c.file f')
    (h : ctx.Renumbers ρ ctx') (wrapper : Option String) :
    List.Forall₂ (Draft.Alike R) (c.drafts ctx wrapper)
      ((c.renumber ρ f').drafts ctx' wrapper) := by
  cases wrapper with
  | none =>
    refine List.rel_append (List.rel_append ?_ ?_) ?_
    · rw [List.forall₂_map_left_iff, Contents.renumber, List.forall₂_map_right_iff,
        List.forall₂_map_right_iff, List.forall₂_same]
      intro o _
      refine ⟨o.className_renumber, o.innerNames_renumber, ?_⟩
      exact messageSteps_recommented hR hf h _ o
    · rw [List.forall₂_map_left_iff, List.forall₂_map_right_iff]
      refine List.forall₂_same.mpr fun e _ => ⟨rfl, rfl, ?_⟩
      exact .pure (enumSteps_recommented hR hf e)
    · have hholder : (c.renumber ρ f').holder =
          c.holder.map fun p => (p.1, p.2.map (·.renumber ρ)) := rfl
      rw [hholder, Option.toList_map, List.map_map, List.forall₂_map_left_iff,
        List.forall₂_map_right_iff]
      refine List.forall₂_same.mpr fun p _ => ⟨rfl, rfl, ?_⟩
      exact .pure (holderSteps_recommented hR hf _ p.1 p.2)
  | some wrapper =>
    have hempty : ((c.renumber ρ f').messages.isEmpty && (c.renumber ρ f').enums.isEmpty &&
        (c.renumber ρ f').file.extensions.isEmpty) =
          (c.messages.isEmpty && c.enums.isEmpty && c.file.extensions.isEmpty) := by
      have hextensions : f'.extensions = c.file.extensions :=
        Schema.File.of_core (·.extensions) (fun _ => rfl) hf.core
      simp only [Contents.renumber, List.isEmpty_map, hextensions]
    have hnames : Outline.namesOfAll (c.renumber ρ f').messages =
        Outline.namesOfAll c.messages := by
      rw [Contents.renumber, ← Outline.renumberAll_eq, Outline.namesOfAll_renumber]
    have hholder : (c.renumber ρ f').holder.toList.map (·.1) = c.holder.toList.map (·.1) := by
      rw [Contents.renumber]
      cases c.holder <;> rfl
    unfold Contents.drafts
    dsimp only
    rw [hempty]
    split
    · exact .nil
    · refine .cons ⟨rfl, ?_, wrapperSteps_recommented hR hf h wrapper⟩ .nil
      dsimp only
      rw [hnames, hholder]
      rfl

end Drafts

/-- The beans of a file are the same in a renumbered graph with the same comments. -/
theorem beans_renumber {ρ : Nat → Nat} {ctx ctx' : Context} (h : ctx.Renumbers ρ ctx') {file : Nat}
    (hcomments : (ctx'.graph.file (ρ file)).comments = (ctx.graph.file file).comments) :
    beans ctx' (ρ file) = beans ctx file := by
  rw [beans_eq_drafts, beans_eq_drafts, h.names, Contents.of_renumber h]
  cases hc : Contents.of ctx file with
  | error e => simp only [Except.map]
  | ok c =>
    obtain ⟨-, -, -, hfile, -, -⟩ := Contents.of_ok hc
    have hcore : (ctx'.graph.file (ρ file)).core = c.file.core := by rw [h.graph.core, hfile]
    have hf : Recommented Eq c.file (ctx'.graph.file (ρ file)) := by
      refine ⟨hcore, fun path => ?_, fun path => ?_⟩
      · rw [leading, leading, Schema.File.commentsAt?, Schema.File.commentsAt?, hcomments, hfile]
      · rw [trailing, trailing, Schema.File.commentsAt?, Schema.File.commentsAt?, hcomments, hfile]
    have hdrafts := Contents.drafts_renumber .eq hf h (ctx.names.file file).wrapperClass
    simp only [Except.map]
    refine congrArg Except.ok (Eq.symm ?_)
    rw [← List.forall₂_eq_eq_eq, List.forall₂_map_left_iff, List.forall₂_map_right_iff]
    refine hdrafts.imp fun d d' hd => ?_
    rw [sourceFile_renumber hcore, hd.className, hd.nested, hd.steps.eq]

end ProtoJava.Bean
