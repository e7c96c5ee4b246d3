import ProtoJava.Proofs.Bean.Declarations
import ProtoJava.Proofs.Bean.Mentions
import ProtoJava.Proofs.Bean.Programs
import ProtoJava.Proofs.Mapping.Entries

/-! # Beans without map entries

The beans of a file do not depend on the names of map entries, and no annotation in them has the
path of an entry or one below it.
-/

namespace ProtoJava.Bean

open Java
open Mapping

theorem mapEntry_of_mem_nestedClasses {f : Schema.File} {i n : Nat} (h : n ∈ nestedClasses f i) :
    (f.message n).mapEntry = false := by
  simp only [nestedClasses, List.mem_filter, Bool.and_eq_true, Bool.not_eq_true'] at h
  exact h.2.1

section Texts

variable {ctx ctx' : Context} (h : ctx.RenamesEntries ctx') (f : Schema.File)

include h

section Unions

variable {u : Union} {v : Variant}

theorem variantSteps_renamed (hv : v.member.Holds (Value.NoEntry ctx.graph)) :
    variantSteps ctx' f u v = variantSteps ctx f u v := by
  simp only [variantSteps, Property.type_renamed h hv]

theorem unionSteps_renamed (hu : u.Holds (Value.NoEntry ctx.graph)) :
    unionSteps ctx' f u = unionSteps ctx f u := by
  rw [unionSteps, unionSteps, mapM_congr fun v hv => variantSteps_renamed h f (hu v hv)]

theorem accessorSteps_renamed (hv : v.member.Holds (Value.NoEntry ctx.graph)) :
    accessorSteps ctx' u v = accessorSteps ctx u v := by
  simp only [accessorSteps, Property.type_renamed h hv, Property.fallback_renamed h]

theorem unionAccessorSteps_renamed (hu : u.Holds (Value.NoEntry ctx.graph)) :
    unionAccessorSteps ctx' u = unionAccessorSteps ctx u := by
  rw [unionAccessorSteps, unionAccessorSteps,
    mapM_congr fun v hv => accessorSteps_renamed h (hu v hv)]

end Unions

section Messages

variable {s : Shape} {m : Member}

theorem fieldSteps_renamed (hm : m.Holds (Value.NoEntry ctx.graph)) :
    fieldSteps ctx' f m = fieldSteps ctx f m := by
  simp only [fieldSteps, Property.type_renamed h hm, Property.initializer_renamed h]

theorem itemSteps_renamed {item : Item} (hi : item.Holds (Value.NoEntry ctx.graph)) :
    itemSteps ctx' f item = itemSteps ctx f item := by
  cases item with
  | field m => rw [itemSteps, itemSteps, fieldSteps_renamed h f hi]
  | union u => rw [itemSteps, itemSteps, unionSteps_renamed h f hi]

theorem defaultSteps_renamed (hm : m.Holds (Value.NoEntry ctx.graph)) :
    defaultSteps ctx' m = defaultSteps ctx m := by
  unfold defaultSteps
  rw [Property.defaultValue_renamed h]
  split
  · next hvalue => rw [Value.type_renamed h (hm.value hvalue)]
  · rfl

theorem memberSteps_renamed (hs : s.Holds (Value.NoEntry ctx.graph))
    (extensions : List Extension) :
    memberSteps ctx' f s extensions = memberSteps ctx f s extensions := by
  have hunions : ∀ u ∈ s.unions.filterMap id, u.Holds (Value.NoEntry ctx.graph) := by
    intro u hu
    obtain ⟨_, hmem, rfl⟩ := List.mem_filterMap.mp hu
    exact hs.unions u hmem
  unfold memberSteps
  rw [mapM_congr fun i hi => itemSteps_renamed h f (hs.items i hi),
    mapM_congr fun m hm => defaultSteps_renamed h (hs.members m hm),
    mapM_congr fun u hu => unionAccessorSteps_renamed h (hunions u hu)]

end Messages

end Texts

mutual

theorem messageSteps_renamed {ctx ctx' : Context} (h : ctx.RenamesEntries ctx')
    (f : Schema.File) (modifiers : String) :
    ∀ o : Outline, o.Holds (Value.NoEntry ctx.graph) →
      messageSteps ctx' f modifiers o = messageSteps ctx f modifiers o
  | .node shape extensions enums nested, ho => by
    obtain ⟨hs, hn⟩ := ho
    rw [messageSteps, messageSteps, memberSteps_renamed h f hs, nestedSteps_renamed h f nested hn]

theorem nestedSteps_renamed {ctx ctx' : Context} (h : ctx.RenamesEntries ctx')
    (f : Schema.File) :
    ∀ os : List Outline, (∀ o ∈ os, o.Holds (Value.NoEntry ctx.graph)) →
      nestedSteps ctx' f os = nestedSteps ctx f os
  | [], _ => rfl
  | o :: r, ho => by
    rw [List.forall_mem_cons] at ho
    rw [nestedSteps, nestedSteps, messageSteps_renamed h f _ o ho.1,
      nestedSteps_renamed h f r ho.2]

end

section Files

variable {ctx ctx' : Context} (h : ctx.RenamesEntries ctx') {file : Nat}

include h

theorem EnumShape.of_renamed (i : Nat) : EnumShape.of ctx' file i = EnumShape.of ctx file i := by
  rw [EnumShape.of, EnumShape.of, h.graph, h.names.enumNames]

theorem extensionsOf_renamed (m : Option Schema.Message) (fields : List Schema.Field)
    (names : List Naming.ExtensionNames) :
    extensionsOf ctx' m fields names = extensionsOf ctx m fields names := by
  simp only [extensionsOf, Extension.of, h.scope]

theorem Outline.of_renamed {i : Nat} (hi : ((ctx.graph.file file).message i).mapEntry = false) :
    Outline.of ctx' file i = Outline.of ctx file i := by
  induction i using Outline.of.induct ctx file with
  | case1 i ih =>
    have hnested : ∀ n ∈ nestedClasses (ctx.graph.file file) i,
        Outline.of ctx' file n = Outline.of ctx file n :=
      fun n hn => ih n hn (mapEntry_of_mem_nestedClasses hn)
    have henums : EnumShape.of ctx' file = EnumShape.of ctx file :=
      funext fun e => EnumShape.of_renamed h e
    have hshape : Shape.of ctx' ⟨file, i⟩ = Shape.of ctx ⟨file, i⟩ := Shape.of_renamed h hi
    simp only [Outline.of_eq, hshape, extensionsOf_renamed h, h.graph, mapM_congr hnested, henums]

theorem Contents.of_renamed : Contents.of ctx' file = Contents.of ctx file := by
  have houtlines : ∀ i ∈ (ctx.graph.file file).topMessages.filter fun i =>
        !((ctx.graph.file file).message i).mapEntry,
      Outline.of ctx' file i = Outline.of ctx file i := by
    intro i hi
    exact Outline.of_renamed h (by simpa using (List.mem_filter.mp hi).2)
  have hextensions : (ctx'.names.file file).extensions = (ctx.names.file file).extensions :=
    h.names.of_file (·.extensions) (fun _ => rfl) file
  have hclass : (ctx'.names.file file).extensionsClass = (ctx.names.file file).extensionsClass :=
    h.names.of_file (·.extensionsClass) (fun _ => rfl) file
  have henums : EnumShape.of ctx' file = EnumShape.of ctx file :=
    funext fun e => EnumShape.of_renamed h e
  simp only [Contents.of, h.graph, mapM_congr houtlines, hextensions, extensionsOf_renamed h,
    hclass, henums, h.names.beanPackage]

theorem wrapperSteps_renamed {c : Contents}
    (hc : ∀ o ∈ c.messages, o.Holds (Value.NoEntry ctx.graph)) (wrapper : String) :
    wrapperSteps ctx' c wrapper = wrapperSteps ctx c wrapper := by
  unfold wrapperSteps
  rw [nestedSteps_renamed h c.file c.messages hc]

theorem Contents.drafts_renamed {c : Contents}
    (hc : ∀ o ∈ c.messages, o.Holds (Value.NoEntry ctx.graph)) (wrapper : Option String) :
    c.drafts ctx' wrapper = c.drafts ctx wrapper := by
  cases wrapper with
  | none =>
    have hmessages : ∀ o ∈ c.messages,
        Draft.mk o.className o.innerNames (messageSteps ctx' c.file "public " o) =
          ⟨o.className, o.innerNames, messageSteps ctx c.file "public " o⟩ := by
      intro o ho
      rw [messageSteps_renamed h c.file _ o (hc o ho)]
    rw [Contents.drafts, Contents.drafts, List.map_congr_left hmessages]
  | some wrapper => rw [Contents.drafts, Contents.drafts, wrapperSteps_renamed h hc]

/-- The beans of a file are the same whatever names map entries have. -/
theorem beans_renamed (hq : ∀ i, ∀ f ∈ ((ctx.graph.file file).message i).fields, ∀ p,
      ctx.classify (some ((ctx.graph.file file).message i)) f = .ok p →
        ∀ v ∈ p.values, v.NoEntry ctx.graph) : beans ctx' file = beans ctx file := by
  rw [beans_eq_drafts, beans_eq_drafts, Contents.of_renamed h, h.names.wrapperClass]
  cases hc : Contents.of ctx file with
  | error e => simp only [Except.map]
  | ok c => simp only [Except.map, Contents.drafts_renamed h (Contents.of_holds hq hc)]

end Files

section Labels

variable {ctx : Context} {file : Nat}

/-- An extension among those of some fields is made of one of them. -/
theorem field_of_extensionsOf {m : Option Schema.Message} {fields : List Schema.Field}
    {names : List Naming.ExtensionNames} {extensions : List Extension}
    (h : extensionsOf ctx m fields names = .ok extensions) {x : Extension} (hx : x ∈ extensions) :
    x.property.field ∈ fields := by
  obtain ⟨f, hf, _, -, hp, -⟩ := exists_of_mem_extensionsOf h hx
  obtain ⟨-, -, -, -, hfield⟩ := classify_ok hp
  exact hfield ▸ hf

/-- Where the parts of the shape of a message come from. -/
structure MadeOf (s : Shape) (m : Schema.Message) : Prop where
  message : s.message = m
  members : ∀ x ∈ s.members, x.property.field ∈ m.fields
  oneofs : ∀ u, some u ∈ s.unions → u.oneof ∈ m.oneofs
  variants : ∀ u, some u ∈ s.unions → ∀ v ∈ u.variants, v.member ∈ s.members

theorem Shape.of_madeOf {id : Schema.MessageId} {s : Shape} (h : Shape.of ctx id = .ok s) :
    MadeOf s (ctx.graph.message id) := by
  obtain ⟨ps, hps, rfl⟩ := Shape.of_eq_ok_iff.mp h
  have hunion : ∀ u, some u ∈ (Shape.ofProperties (ctx.graph.message id)
      (ctx.names.message id) ps).unions → ∃ o ∈ (ctx.graph.message id).oneofs, ∃ n,
        Union.of (Shape.ofProperties (ctx.graph.message id) (ctx.names.message id) ps).members
          o n = u := by
    intro u hu
    obtain ⟨o, ho, n?, -, hu⟩ := mem_of_mem_zipWith hu
    obtain ⟨n, -, hu⟩ := Option.map_eq_some_iff.mp hu
    exact ⟨o, ho, n, hu⟩
  constructor
  case message => rfl
  case members =>
    intro x hx
    obtain ⟨p, hp, n, -, rfl⟩ := mem_of_mem_zipWith hx
    obtain ⟨f, hf, hok⟩ := forall₂_exists_right hps hp
    obtain ⟨-, -, -, -, hfield⟩ := classify_ok hok
    rw [hfield]
    exact hf
  case oneofs =>
    intro u hu
    obtain ⟨o, ho, n, rfl⟩ := hunion u hu
    exact ho
  case variants =>
    intro u hu v hv
    obtain ⟨o, -, n, rfl⟩ := hunion u hu
    obtain ⟨w, -, hv⟩ := List.mem_filterMap.mp hv
    obtain ⟨x, hx, rfl⟩ := Option.map_eq_some_iff.mp hv
    exact List.mem_of_getElem? hx

/-- The members of a message are annotated with its paths. -/
theorem memberLabels_paths {s : Shape} {m : Schema.Message} (h : MadeOf s m)
    {extensions : List Extension} (hx : ∀ x ∈ extensions, x.property.field ∈ m.extensions) :
    ∀ l ∈ memberLabels s extensions, l.1 ∈ m.paths := by
  have hmember : ∀ x ∈ s.members, (memberLabel x).1 ∈ m.paths := fun x hx =>
    List.mem_cons_of_mem _ (List.mem_append_left _ (List.mem_append_left _
      (List.mem_map_of_mem (h.members x hx))))
  have honeof : ∀ u, some u ∈ s.unions → u.oneof.path ∈ m.paths := fun u hu =>
    List.mem_cons_of_mem _ (List.mem_append_right _ (List.mem_map_of_mem (h.oneofs u hu)))
  intro l hl
  rw [memberLabels, List.mem_append, List.mem_append] at hl
  rcases hl with (hl | hl) | hl
  · obtain ⟨item, hitem, hl⟩ := List.mem_flatMap.mp hl
    obtain ⟨x, hx, rfl⟩ | ⟨u, hu, rfl⟩ := Shape.items_cases hitem
    · rw [List.mem_singleton.mp hl]
      exact hmember x hx
    · rcases List.mem_append.mp hl with hl | hl
      · obtain ⟨v, hv, rfl⟩ := List.mem_map.mp hl
        exact hmember _ (h.variants u hu v hv)
      · rw [List.mem_singleton.mp hl]
        exact honeof u hu
  · obtain ⟨x, hmem, rfl⟩ := List.mem_map.mp hl
    exact List.mem_cons_of_mem _ (List.mem_append_left _ (List.mem_append_right _
      (List.mem_map_of_mem (hx x hmem))))
  · obtain ⟨u, hu, rfl⟩ := List.mem_map.mp hl
    exact honeof u (List.reduceOption_mem_iff.mp hu)

theorem EnumShape.labels_paths {e : EnumShape} : ∀ l ∈ e.labels, l.1 ∈ e.type.paths := by
  intro l hl
  rcases List.mem_cons.mp hl with rfl | hl
  · exact List.mem_cons_self
  · obtain ⟨⟨v, constant⟩, hv, rfl⟩ := List.mem_map.mp hl
    exact List.mem_cons_of_mem _ (List.mem_map_of_mem (List.of_mem_zip hv).1)

variable (hl : (ctx.graph.file file).Linked)

include hl

/-- What is declared in the outline of a message is no part of a map entry. -/
theorem Outline.labels_beside {i : Nat} {o : Outline} (h : Outline.of ctx file i = .ok o)
    (hi : i < (ctx.graph.file file).messages.length)
    (hm : ((ctx.graph.file file).message i).mapEntry = false) :
    ∀ l ∈ o.labels, (ctx.graph.file file).Beside l.1 := by
  induction i using Outline.of.induct ctx file generalizing o with
  | case1 i ih =>
    obtain ⟨shape, extensions, nested, hshape, hextensions, hnested, rfl⟩ := Outline.of_ok h
    have hmade := Shape.of_madeOf hshape
    have hmessage : shape.message = (ctx.graph.file file).message i := hmade.message
    have hown : ∀ q ∈ ((ctx.graph.file file).message i).paths, (ctx.graph.file file).Beside q :=
      fun q hq => .message hi hm hq
    intro l hmem
    simp only [Outline.labels, List.mem_cons, List.mem_append] at hmem
    rcases hmem with rfl | (hmem | hmem) | hmem
    · exact hown _ (hmessage ▸ List.mem_cons_self)
    · refine hown _ (memberLabels_paths hmade (fun x hx => ?_) l hmem)
      rw [← hmade.message]
      exact field_of_extensionsOf hextensions hx
    · obtain ⟨_, hshown, hmem⟩ := List.mem_flatMap.mp hmem
      obtain ⟨e, he, rfl⟩ := List.mem_map.mp hshown
      rw [hmessage] at he
      exact .enum ((hl.mem_enums_iff hi).mp he).1 (EnumShape.labels_paths l hmem)
    · rw [labelsOfAll_eq] at hmem
      obtain ⟨o, ho, hmem⟩ := List.mem_flatMap.mp hmem
      obtain ⟨n, hn, hok⟩ := forall₂_exists_right hnested ho
      exact ih n hn hok (lt_of_mem_nestedClasses hn).2 (mapEntry_of_mem_nestedClasses hn) l hmem

omit hl in
/-- What is in the outline of a message is the outline of one that is no map entry. -/
theorem Outline.Inside.exists_of {o top : Outline} (h : o.Inside top) {i : Nat}
    (htop : Outline.of ctx file i = .ok top)
    (hm : ((ctx.graph.file file).message i).mapEntry = false) :
    ∃ j, ((ctx.graph.file file).message j).mapEntry = false ∧ Outline.of ctx file j = .ok o := by
  induction h generalizing i with
  | self => exact ⟨i, hm, htop⟩
  | nested hn h ih =>
    obtain ⟨shape, extensions, nested, -, -, hnested, heq⟩ := Outline.of_ok htop
    obtain ⟨-, -, -, rfl⟩ := Outline.node.inj heq
    obtain ⟨j, hj, hok⟩ := forall₂_exists_right hnested hn
    exact ih hok (mapEntry_of_mem_nestedClasses hj)

omit hl in
/-- Every class of a message in the contents of a file is that of one that is no map entry. -/
theorem Contents.exists_of {c : Contents} (hc : Contents.of ctx file = .ok c) {o top : Outline}
    (htop : top ∈ c.messages) (h : o.Inside top) :
    ∃ j, ((ctx.graph.file file).message j).mapEntry = false ∧ Outline.of ctx file j = .ok o := by
  obtain ⟨-, hmessages, -⟩ := Contents.of_ok hc
  obtain ⟨i, hi, hok⟩ := forall₂_exists_right hmessages htop
  exact h.exists_of hok (by simpa using (List.mem_filter.mp hi).2)

/-- What is declared in the contents of a file is no part of a map entry. -/
theorem Contents.labels_beside {c : Contents} (hc : Contents.of ctx file = .ok c) :
    ∀ l ∈ c.labels, (ctx.graph.file file).Beside l.1 := by
  obtain ⟨extensions, hmessages, hextensions, -, henums, hholder⟩ := Contents.of_ok hc
  intro l hmem
  rw [Contents.labels, List.mem_append, List.mem_append, labelsOfAll_eq] at hmem
  rcases hmem with (hmem | hmem) | hmem
  · obtain ⟨o, ho, hmem⟩ := List.mem_flatMap.mp hmem
    obtain ⟨i, hi, hok⟩ := forall₂_exists_right hmessages ho
    obtain ⟨htop, hentry⟩ := List.mem_filter.mp hi
    obtain ⟨hi, -⟩ := Schema.File.mem_topMessages_iff.mp htop
    exact Outline.labels_beside hl hok hi (by simpa using hentry) l hmem
  · rw [henums] at hmem
    obtain ⟨_, hshown, hmem⟩ := List.mem_flatMap.mp hmem
    obtain ⟨e, he, rfl⟩ := List.mem_map.mp hshown
    exact .enum (Schema.File.mem_topEnums_iff.mp he).1 (EnumShape.labels_paths l hmem)
  · rw [hholder] at hmem
    obtain ⟨⟨name, xs⟩, hxs, hmem⟩ := List.mem_flatMap.mp hmem
    obtain ⟨x, hx, rfl⟩ := List.mem_map.mp hmem
    obtain ⟨name', -, heq⟩ := Option.map_eq_some_iff.mp (Option.mem_toList.mp hxs)
    obtain ⟨rfl, rfl⟩ := Prod.mk.inj heq
    exact .extension (field_of_extensionsOf hextensions hx)

/-- What beans annotate is no part of a map entry. -/
theorem beans_beside {as : List Artifact} (h : beans ctx file = .ok as) :
    ∀ a ∈ as, ∀ l ∈ a.labels, (ctx.graph.file file).Beside l.1 := by
  obtain ⟨c, hc, has⟩ := beans_ok h
  have hlabels := Contents.labels_beside hl hc
  have hall : ∀ l ∈ as.flatMap Artifact.labels, (ctx.graph.file file).Beside l.1 := by
    obtain ⟨wrapper, -, rfl⟩ | ⟨-, rfl⟩ := has
    · by_cases hne : c.wrapped ctx wrapper = []
      · simp [hne]
      · rw [Contents.wrapped_labels c ctx wrapper hne, List.forall_mem_map]
        exact List.forall_mem_cons.mpr ⟨.file, hlabels⟩
    · rw [Contents.separate_labels, List.forall_mem_map]
      exact hlabels
  exact fun a ha l hmem => hall l (List.mem_flatMap.mpr ⟨a, ha, hmem⟩)

end Labels

end ProtoJava.Bean
