import ProtoJava.Proofs.Bean.Declarations
import ProtoJava.Proofs.Bean.Passages
import ProtoJava.Proofs.Schema.SourcePaths

/-! # Documented declarations

Which declarations of a file are written into its beans with their comments, each once: the messages
and enums that are shown, the values, fields, oneofs with their members, and extensions. A oneof
stands in the place of its first member, so it is left out where that extends something, and the
members of it with it.
-/

namespace ProtoJava.Bean

open Mapping
open Naming (MessageNames EnumNames FileNames unionMembers inhabitedUnions)
open Schema (Message Field Oneof)

/-- The fields of a message that are written as fields: those in no union, and those that extend
something. -/
def plainFields (m : Message) : List Field :=
  m.fields.filter fun f => (m.union? f).isNone || f.extendee.isSome

/-- The unions of a message whose first member extends nothing. -/
def shownUnions (m : Message) : List Oneof :=
  m.oneofs.filter fun o => !o.synthetic && (unionMembers m o).head?.any (·.extendee.isNone)

/-- A union and its members. -/
def unionDocumented (m : Message) (n : MessageNames) (o : Oneof) : List Documented :=
  ⟨.oneof, o.path, (n.union o).caseEnum⟩ ::
    (unionMembers m o).map fun f => ⟨.member, f.path, ((n.union o).variant f).wrapper⟩

/-- Extensions among the given fields. -/
def extensionsDocumented (fields : List Field) (names : List Naming.ExtensionNames) :
    List Documented :=
  (fields.filter (·.extendee.isSome)).map fun x =>
    ⟨.extension, x.path, (extensionNames names x).numberConst⟩

/-- A message with its fields, unions and extensions. -/
def messageDocumented (m : Message) (n : MessageNames) : List Documented :=
  ⟨.message, m.path, n.className⟩ ::
    ((plainFields m).map (fun f => ⟨.field, f.path, (n.field f).field⟩) ++
      (shownUnions m).flatMap (unionDocumented m n) ++
        extensionsDocumented m.extensions n.extensions)

/-- An enum with its values. -/
def enumDocumented (e : Schema.EnumType) (n : EnumNames) : List Documented :=
  ⟨.enum, e.path, n.className⟩ ::
    e.values.mapIdx fun i v => ⟨.value, v.path, n.constants.getD i ""⟩

/-- All declarations of a file that comments are written for. -/
def fileDocumented (f : Schema.File) (n : FileNames) : List Documented :=
  (f.shownMessages.flatMap fun i =>
      messageDocumented (f.message i) (n.messages.getD i default)) ++
    (f.shownEnums.flatMap fun i => enumDocumented (f.enumType i) (n.enums.getD i default)) ++
    extensionsDocumented f.extensions n.extensions

section Items

variable {c : Scope} {s : Shape} {m : Message} {n : MessageNames}

/-- A union that is shown has one first member among the fields that are not plain. -/
theorem firstOf_perm_shown (hm : m.Numbered) :
    ((m.fields.filter fun f => !((m.union? f).isNone || f.extendee.isSome)).filterMap
      (firstOf? m)).Perm (shownUnions m) := by
  let headed (o : Oneof) : Bool := (unionMembers m o).head?.any (·.extendee.isNone)
  have hshown : shownUnions m = (inhabitedUnions m).filter headed := by
    rw [inhabitedUnions, List.filter_filter]
    refine List.filter_congr fun o _ => ?_
    cases h : unionMembers m o <;> simp [headed, h, Bool.and_comm]
  rw [hshown, List.filterMap_filter]
  refine List.Perm.trans (List.Perm.of_eq ?_) ((firstOf_perm_inhabited hm).filter headed)
  rw [List.filter_filterMap]
  refine List.filterMap_congr fun f hf => ?_
  cases ho : firstOf? m f with
  | none => simp
  | some o =>
    obtain ⟨hu, hhead⟩ := (firstOf?_eq_some_iff hm hf).mp ho
    cases hx : f.extendee <;> simp [headed, hu, hhead, hx, Option.filter]

theorem itemDocumented_field (hs : s.Resolved c m n) {f : Field} (hf : f ∈ m.fields) :
    itemDocumented (.field (s.member f)) = [⟨.field, f.path, (n.field f).field⟩] := by
  rw [itemDocumented, hs.fits.field f hf, hs.fits.memberNames f hf]

theorem itemDocumented_union (hs : s.Resolved c m n) {o : Oneof} (ho : o ∈ m.oneofs)
    (hreal : o.synthetic = false) :
    itemDocumented (.union (s.union o)) = unionDocumented m n o := by
  rw [itemDocumented, hs.variants o ho hreal, hs.fits.oneof o ho hreal,
    hs.fits.unionNames o ho hreal, List.map_map, unionDocumented]
  congr 1
  refine List.map_congr_left fun f hf => ?_
  simp [variantDocumented, hs.fits.field f (List.mem_of_mem_filter hf)]

/-- The items of a message are its plain fields and the unions that are shown. -/
theorem items_documented (hm : m.Numbered) (hs : s.Resolved c m n) (hn : n.Fits m) :
    (s.items.flatMap itemDocumented).Perm
      ((plainFields m).map (fun f => ⟨.field, f.path, (n.field f).field⟩) ++
        (shownUnions m).flatMap (unionDocumented m n)) := by
  have hitems := (items_perm_of hs.fits fun f hf => item?_eq_ite hm hs hn hf).flatMap_right
    itemDocumented
  rw [← plainFields, List.flatMap_append, List.flatMap_map, List.flatMap_map] at hitems
  have hfields : (plainFields m).flatMap (fun f => itemDocumented (.field (s.member f))) =
      (plainFields m).map fun f => ⟨.field, f.path, (n.field f).field⟩ := by
    rw [List.map_eq_flatMap]
    exact List.flatMap_congr fun f hf => itemDocumented_field hs (List.mem_of_mem_filter hf)
  have hmembers : (shownUnions m).flatMap (fun o => itemDocumented (.union (s.union o))) =
      (shownUnions m).flatMap (unionDocumented m n) := by
    refine List.flatMap_congr fun o ho => ?_
    simp only [shownUnions, List.mem_filter, Bool.and_eq_true, Bool.not_eq_true'] at ho
    exact itemDocumented_union hs ho.1 ho.2.1
  rw [← hfields, ← hmembers]
  exact hitems.trans (((firstOf_perm_shown hm).flatMap_right _).append_left _)

end Items

section Files

variable {ctx : Context} {file : Nat} {c : Contents}

theorem extensions_documented {m : Option Message} {fields : List Field}
    {names : List Naming.ExtensionNames} {extensions : List Extension}
    (h : extensionsOf ctx m fields names = .ok extensions)
    (hi : fields.map (·.index) = List.range fields.length) (hl : names.length = fields.length) :
    extensions.map Extension.documented = extensionsDocumented fields names := by
  have hlabels := congrArg (List.map fun l => Documented.mk .extension l.1 l.2)
    (extensionsOf_labels_extending h hi hl)
  rw [List.map_map, List.map_map] at hlabels
  exact hlabels

theorem enum_documented {layout : Layout}
    (hfits : (ctx.names.file file).Fits layout (ctx.graph.file file)) {i : Nat}
    (hi : i < (ctx.graph.file file).enums.length) :
    (EnumShape.of ctx file i).documented =
      enumDocumented ((ctx.graph.file file).enumType i)
        ((ctx.names.file file).enums.getD i default) := by
  have hvalues := congrArg (List.map fun l : Java.Label => Documented.mk .value l.1 l.2)
    (List.cons.inj (enumLabels_eq (hfits.enums i hi))).2
  rw [List.map_map, Schema.map_mapIdx] at hvalues
  exact congrArg (_ :: ·) hvalues

theorem documentedAll_eq (os : List Outline) :
    Outline.documentedAll os = os.flatMap Outline.documented := by
  induction os with
  | nil => rfl
  | cons o os ih => rw [Outline.documentedAll, ih, List.flatMap_cons]

theorem Outline.coe_documented (shape : Shape) (extensions : List Extension)
    (enums : List EnumShape) (nested : List Outline) :
    ((Outline.node shape extensions enums nested).documented : Multiset Documented) =
      ↑(⟨.message, shape.message.path, shape.names.className⟩ ::
        (shape.items.flatMap itemDocumented ++ extensions.map Extension.documented)) +
        (enums.map fun e => (e.documented : Multiset Documented)).sum +
        (nested.map fun o => (o.documented : Multiset Documented)).sum := by
  rw [Outline.documented, documentedAll_eq, ← coe_flatMap, ← coe_flatMap]
  simp

/-- The declarations in the contents of a file are those of the file. -/
theorem Contents.documented_perm {layout : Layout} (hl : (ctx.graph.file file).Linked)
    (hfits : (ctx.names.file file).Fits layout (ctx.graph.file file))
    (h : Contents.of ctx file = .ok c) :
    c.documented.Perm (fileDocumented (ctx.graph.file file) (ctx.names.file file)) := by
  obtain ⟨extensions, hx, hholder⟩ := Contents.holder_eq hfits h
  have hextensions := extensions_documented hx hl.extensions hfits.extensions
  have hown : ∀ i, (ctx.graph.file file).Shown i → ∀ shape extensions,
      Shape.of ctx ⟨file, i⟩ = .ok shape →
      extensionsOf ctx (some shape.message) shape.message.extensions shape.names.extensions =
        .ok extensions →
      ((⟨.message, shape.message.path, shape.names.className⟩ ::
        (shape.items.flatMap itemDocumented ++ extensions.map Extension.documented) :
          List Documented) : Multiset Documented) =
        messageDocumented ((ctx.graph.file file).message i)
          ((ctx.names.file file).messages.getD i default) := by
    intro i hi shape extensions hs hx
    have hm := hl.message_numbered hi.lt
    have hfit := hfits.messages i hi.lt
    have hres : shape.Resolved ctx.toScope ((ctx.graph.file file).message i)
        ((ctx.names.file file).messages.getD i default) := Shape.of_resolved hs hm hfit
    rw [hres.fits.message, hres.fits.names] at hx ⊢
    rw [extensions_documented hx hm.extensions hfit.extensions, messageDocumented,
      Multiset.coe_eq_coe]
    exact ((items_documented hm hres hfit).append_right _).cons _
  have hsum := Contents.sum_eq (fun o => (o.documented : Multiset Documented))
    (fun e => e.documented) Outline.coe_documented hl h hown
  have henums : (ctx.graph.file file).shownEnums.map
      (fun e => ((EnumShape.of ctx file e).documented : Multiset Documented)) =
        (ctx.graph.file file).shownEnums.map fun e =>
          (enumDocumented ((ctx.graph.file file).enumType e)
            ((ctx.names.file file).enums.getD e default) : Multiset Documented) := by
    refine List.map_congr_left fun e he => congrArg _ (enum_documented hfits ?_)
    exact List.mem_range.mp (List.mem_of_mem_filter he)
  rw [henums] at hsum
  rw [← Multiset.coe_eq_coe, Contents.documented, fileDocumented, hholder, hextensions,
    documentedAll_eq]
  simp only [← Multiset.coe_add, coe_flatMap, hsum]

/-- The drafts of a file are for its declarations, in either layout. -/
theorem Contents.drafts_documents (h : Contents.of ctx file = .ok c) (wrapper : Option String) :
    ∃ dss, List.Forall₂ (fun d ds => Yields AnyImports d.steps fun steps =>
        Documents c.file steps ds) (c.drafts ctx wrapper) dss ∧ dss.flatten = c.documented := by
  cases wrapper with
  | none =>
    refine ⟨c.messages.map Outline.documented ++ c.enums.map EnumShape.documented ++
      c.holder.toList.map (·.2.map Extension.documented),
      List.rel_append (List.rel_append ?messages ?enums) ?holder, ?_⟩
    case messages =>
      rw [List.forall₂_map_left_iff, List.forall₂_map_right_iff, List.forall₂_same]
      exact fun o _ => messageSteps_documents ctx c.file false o
    case enums =>
      rw [List.forall₂_map_left_iff, List.forall₂_map_right_iff, List.forall₂_same]
      exact fun e _ => Yields.pure (enumSteps_documents c.file e)
    case holder =>
      rw [List.forall₂_map_left_iff, List.forall₂_map_right_iff, List.forall₂_same]
      exact fun p _ => Yields.pure (holderSteps_documents c.file "public " p.1 p.2)
    simp [Contents.documented, documentedAll_eq, List.flatMap_def]
  | some wrapper =>
    rw [Contents.drafts]
    split
    · next hempty =>
      obtain ⟨extensions, -, hx, hf, -, hh⟩ := Contents.of_ok h
      simp only [Bool.and_eq_true, List.isEmpty_iff, hf] at hempty
      obtain ⟨⟨hmessages, henums⟩, hextensions⟩ := hempty
      rw [hextensions] at hx
      refine ⟨[], .nil, ?_⟩
      rw [Contents.documented, hmessages, henums, hh, extensionsOf_nil hx]
      cases (ctx.names.file file).extensionsClass <;> rfl
    · exact ⟨[c.documented], .cons (wrapperSteps_documents ctx c wrapper) .nil, by simp⟩

end Files

section Paths

/-- The paths of a message, of its fields, of its extensions that extend something, and of its
unions with a member. -/
def messagePaths (m : Message) : List Schema.Path :=
  m.path :: (m.fields.map (·.path) ++ (m.extensions.filter (·.extendee.isSome)).map (·.path) ++
    (inhabitedUnions m).map (·.path))

/-- The paths of the declarations in a file that are shown. -/
def shownPaths (f : Schema.File) : List Schema.Path :=
  f.shownMessages.flatMap (fun i => messagePaths (f.message i)) ++
    f.shownEnums.flatMap (fun i => (f.enumType i).paths) ++
    (f.extensions.filter (·.extendee.isSome)).map (·.path)

/-- What is listed for positions of a list that are picked is part of what is listed for all. -/
theorem flatMap_filter_range_sublist {α β : Type} (l : List α) (d : α) (p : Nat → Bool)
    {f g : α → List β} (h : ∀ a, (f a).Sublist (g a)) :
    (((List.range l.length).filter p).flatMap fun i => f (l.getD i d)).Sublist (l.flatMap g) := by
  have hl : (List.range l.length).map (fun i => l.getD i d) = l := by
    apply List.ext_getElem
    · simp
    · intro i hi hi'
      simp [hi']
  conv_rhs => rw [← hl, List.flatMap_map]
  exact (List.filter_sublist.flatMap _).trans (.flatMap_right _ fun i _ => h _)

/-- No two declarations that are shown have the same path if no two of the file have. -/
theorem shownPaths_nodup {f : Schema.File} (h : f.paths.Nodup) : (shownPaths f).Nodup := by
  have hmessage : ∀ m : Message, (messagePaths m).Sublist m.paths := fun m =>
    ((((List.Sublist.refl _).append (List.filter_sublist.map _)).append
      (List.filter_sublist.map _))).cons_cons _
  have hsub : (shownPaths f).Sublist f.paths :=
    ((flatMap_filter_range_sublist f.messages {} f.shown hmessage).append
      (flatMap_filter_range_sublist f.enums {} _ fun _ => .refl _)).append
        (List.filter_sublist.map _)
  exact hsub.nodup h

/-- Unions without a member have none to list. -/
theorem inhabitedUnions_flatMap (m : Message) :
    (inhabitedUnions m).flatMap (unionMembers m) =
      (m.oneofs.filter (!·.synthetic)).flatMap (unionMembers m) := by
  rw [inhabitedUnions]
  generalize m.oneofs = os
  induction os with
  | nil => rfl
  | cons o os ih =>
    cases hreal : o.synthetic <;> cases hu : unionMembers m o <;> simp [hreal, hu, ih]

section Members

variable {m : Message} (hx : ∀ f ∈ m.fields, f.extendee = none)

include hx

theorem plainFields_eq : plainFields m = m.fields.filter fun f => (m.union? f).isNone := by
  refine List.filter_congr fun f hf => ?_
  rw [hx f hf, Option.isSome_none, Bool.or_false]

theorem shownUnions_eq : shownUnions m = inhabitedUnions m := by
  refine List.filter_congr fun o _ => ?_
  cases h : unionMembers m o with
  | nil => rfl
  | cons f r =>
    have hf : f ∈ m.fields := List.mem_of_mem_filter (h ▸ List.mem_cons_self)
    simp [hx f hf]

/-- If the fields of a message extend nothing, then all of them are written, and all unions with a
member. -/
theorem messageDocumented_paths (hm : m.Numbered) (n : MessageNames) :
    ((messageDocumented m n).map (·.path)).Perm (messagePaths m) := by
  have hunions : ((inhabitedUnions m).flatMap fun o => (unionDocumented m n o).map (·.path)).Perm
      ((inhabitedUnions m).map (·.path) ++
        ((inhabitedUnions m).flatMap (unionMembers m)).map (·.path)) := by
    have hunion : ∀ o, (unionDocumented m n o).map (·.path) =
        [o.path] ++ (unionMembers m o).map (·.path) := fun o => by
      simp [unionDocumented]
    simp only [hunion]
    rw [List.map_flatMap, List.map_eq_flatMap (l := inhabitedUnions m)]
    exact (List.flatMap_append_perm _ (fun o => [o.path]) fun o =>
      (unionMembers m o).map (·.path)).symm
  have hfields := (fields_perm hm).map (·.path)
  rw [← inhabitedUnions_flatMap, List.map_append] at hfields
  rw [messageDocumented, plainFields_eq hx, shownUnions_eq hx, extensionsDocumented, messagePaths]
  simp only [List.map_cons, List.map_append, List.map_map, List.map_flatMap, Function.comp_def]
  apply List.Perm.cons
  rw [← Multiset.coe_eq_coe] at hfields hunions ⊢
  simp only [← Multiset.coe_add] at hfields hunions ⊢
  rw [← hfields, hunions]
  abel

end Members

theorem enumDocumented_paths (e : Schema.EnumType) (n : EnumNames) :
    (enumDocumented e n).map (·.path) = e.paths := by
  rw [enumDocumented, List.map_cons, Schema.map_mapIdx, Schema.EnumType.paths]
  exact congrArg _ (Schema.mapIdx_eq_map _ _)

theorem extensionsDocumented_paths (fields : List Field) (names : List Naming.ExtensionNames) :
    (extensionsDocumented fields names).map (·.path) =
      (fields.filter (·.extendee.isSome)).map (·.path) := by
  rw [extensionsDocumented, List.map_map]
  rfl

/-- If the fields of messages extend nothing, then all declarations that are shown are written. -/
theorem fileDocumented_paths {f : Schema.File} (hl : f.Linked)
    (hx : ∀ m ∈ f.messages, ∀ x ∈ m.fields, x.extendee = none) (n : FileNames) :
    ((fileDocumented f n).map (·.path)).Perm (shownPaths f) := by
  rw [fileDocumented, shownPaths, List.map_append, List.map_append, List.map_flatMap,
    List.map_flatMap, extensionsDocumented_paths]
  simp only [enumDocumented_paths]
  refine ((List.Perm.flatMap_left _ fun i hi => ?_).append_right _).append_right _
  have hi := (hl.mem_shownMessages_iff.mp hi).lt
  exact messageDocumented_paths (hx _ (Schema.File.message_mem hi)) (hl.message_numbered hi) _

end Paths

end ProtoJava.Bean
