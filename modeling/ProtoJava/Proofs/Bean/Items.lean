import Mathlib.Data.List.Perm.Basic
import ProtoJava.Proofs.Bean.Labels
import ProtoJava.Proofs.Mapping.Shapes

/-! # Declarations in a message

The items of a message declare its fields and unions once each: a union stands in the place of its
first member, and the other members have no item.
-/

namespace ProtoJava.Schema

/-- A message whose fields extend nothing, whose extensions extend something, and whose unions
have members. -/
structure Message.Proper (m : Message) : Prop where
  fields : ∀ f ∈ m.fields, f.extendee = none
  extensions : ∀ x ∈ m.extensions, x.extendee ≠ none
  unions : ∀ o ∈ m.oneofs, o.synthetic = false → ∃ f ∈ m.fields, f.oneofIndex = some o.index

end ProtoJava.Schema

namespace ProtoJava.Bean

open Java
open Mapping
open Naming (MessageNames ExtensionNames unionMembers inhabitedUnions)
open Schema (Message Field Oneof)

/-- The constants for an extension among those of its place. -/
def extensionNames (names : List ExtensionNames) (x : Field) : ExtensionNames :=
  names.getD x.index default

section Items

variable {s : Shape} {m : Message} {n : MessageNames}

/-- The union that a field is the first member of. -/
def firstOf? (m : Message) (f : Field) : Option Oneof :=
  (m.union? f).filter fun o => (unionMembers m o).head?.any (·.index == f.index)

theorem item?_eq (hm : m.Numbered) (hs : s.Fits m n) (hn : n.Fits m) {f : Field} (hf : f ∈ m.fields)
    (hx : f.extendee = none) :
    s.item? (s.member f) = if (m.union? f).isNone then some (.field (s.member f))
      else (firstOf? m f).map fun o => .union (s.union o) := by
  obtain ⟨hk, -⟩ := hs.kind f hf hx
  cases hu : m.union? f with
  | none =>
    rw [hu, Option.map_none] at hk
    rw [Shape.item?]
    split
    · next h => simp [h, Kind.oneof?] at hk
    · rfl
  | some o =>
    rw [hu, Option.map_some] at hk
    obtain ⟨ho, hreal, -⟩ := Message.mem_oneofs_of_union? hu
    rw [Shape.item?]
    split
    · next oneof v h =>
      obtain rfl : oneof = o.index := by simpa [h, Kind.oneof?] using hk
      have hjoin : s.unions[o.index]?.join = some (s.union o) := by
        rw [hs.unions, List.getElem?_map, Schema.getElem?_index hm.oneofs ho]
        simp [hreal]
      have hhead : (s.union o).names.variants.head?.any (·.fieldIndex == f.index) =
          (unionMembers m o).head?.any (·.index == f.index) := by
        have := congrArg List.head? (hn.variants o ho hreal)
        rw [List.head?_map, List.head?_map] at this
        have := congrArg (Option.any (· == f.index)) this
        rw [Option.any_map, Option.any_map] at this
        rw [hs.unionNames o ho hreal]
        exact this
      simp only [hjoin, hs.field f hf, hhead, firstOf?, hu]
      by_cases h : (unionMembers m o).head?.any (·.index == f.index) <;>
        simp [h, Option.filter]
    · next h =>
      cases hkind : (s.member f).property.kind <;> simp_all [Kind.oneof?]

/-- What stands in the place of a field. -/
theorem item?_eq_ite {c : Scope} (hm : m.Numbered) (hs : s.Resolved c m n) (hn : n.Fits m)
    {f : Field} (hf : f ∈ m.fields) : s.item? (s.member f) =
      if (m.union? f).isNone || f.extendee.isSome then some (.field (s.member f))
      else (firstOf? m f).map fun o => .union (s.union o) := by
  cases hx : f.extendee with
  | none =>
    rw [item?_eq hm hs.fits hn hf hx]
    simp
  | some extendee =>
    have hk := isExtension_of_classify (hs.property f hf) (by simp [hx])
    rw [Option.isSome_some, Bool.or_true, if_pos rfl, Shape.item?]
    cases hkind : (s.member f).property.kind with
    | variant oneof v =>
      rw [hkind] at hk
      exact Bool.noConfusion hk
    | _ => rfl

/-- The fields of a message are those in no union and the members of its unions. -/
theorem fields_perm (hm : m.Numbered) :
    ((m.fields.filter fun f => (m.union? f).isNone) ++
      (m.oneofs.filter (!·.synthetic)).flatMap (unionMembers m)).Perm m.fields := by
  have hf : m.fields.Nodup := List.Nodup.of_map _ (hm.fields ▸ List.nodup_range)
  have ho : m.oneofs.Nodup := List.Nodup.of_map _ (hm.oneofs ▸ List.nodup_range)
  have hmem : ∀ f, f ∈ (m.oneofs.filter (!·.synthetic)).flatMap (unionMembers m) ↔
      f ∈ m.fields ∧ m.union? f ≠ none := by
    intro f
    simp only [List.mem_flatMap, List.mem_filter, Bool.not_eq_true']
    constructor
    · rintro ⟨o, ⟨ho, -⟩, hfo⟩
      obtain ⟨hf, hu⟩ := (Naming.mem_unionMembers_iff hm ho).mp hfo
      exact ⟨hf, by simp [hu]⟩
    · rintro ⟨hf, hu⟩
      obtain ⟨o, hu⟩ := Option.ne_none_iff_exists'.mp hu
      obtain ⟨ho, hreal, -⟩ := Message.mem_oneofs_of_union? hu
      exact ⟨o, ⟨ho, hreal⟩, (Naming.mem_unionMembers_iff hm ho).mpr ⟨hf, hu⟩⟩
  have hunions : ((m.oneofs.filter (!·.synthetic)).flatMap (unionMembers m)).Nodup := by
    refine List.nodup_flatMap.mpr ⟨fun o _ => hf.filter _, ?_⟩
    refine (ho.filter _).imp_of_mem fun ho ho' hne f hfo hfo' => hne ?_
    have hu := ((Naming.mem_unionMembers_iff hm (List.mem_of_mem_filter ho)).mp hfo).2
    rw [((Naming.mem_unionMembers_iff hm (List.mem_of_mem_filter ho')).mp hfo').2] at hu
    exact (Option.some.inj hu).symm
  have hall := (hf.filter fun f => (m.union? f).isNone).append hunions fun f h h' => by
    have := (List.mem_filter.mp h).2
    exact ((hmem f).mp h').2 (by simpa using this)
  refine (List.perm_ext_iff_of_nodup hall hf).mpr fun f => ?_
  rw [List.mem_append, hmem, List.mem_filter]
  cases m.union? f <;> simp

theorem firstOf?_eq_some_iff (hm : m.Numbered) {f : Field} {o : Oneof} (hf : f ∈ m.fields) :
    firstOf? m f = some o ↔ m.union? f = some o ∧ (unionMembers m o).head? = some f := by
  rw [firstOf?, Option.filter_eq_some_iff, and_congr_right_iff]
  intro _
  rw [Option.any_eq_true]
  constructor
  · rintro ⟨f', hh, hi⟩
    have hf' : f' ∈ m.fields := List.mem_of_mem_filter (List.mem_of_mem_head? hh)
    obtain rfl := hm.field_ext hf' hf (by simpa using hi)
    exact hh
  · intro h
    exact ⟨f, h, by simp⟩

/-- Every union with a member has one first member. -/
theorem firstOf_perm_inhabited (hm : m.Numbered) :
    (m.fields.filterMap (firstOf? m)).Perm (inhabitedUnions m) := by
  have hf : m.fields.Nodup := List.Nodup.of_map _ (hm.fields ▸ List.nodup_range)
  have ho : m.oneofs.Nodup := List.Nodup.of_map _ (hm.oneofs ▸ List.nodup_range)
  have hfirsts : (m.fields.filterMap (firstOf? m)).Nodup := by
    rw [List.Nodup, List.pairwise_filterMap]
    refine hf.imp_of_mem fun {f f'} hf hf' hne o h o' h' he => hne ?_
    obtain ⟨-, h⟩ := (firstOf?_eq_some_iff hm hf).mp h
    obtain ⟨-, h'⟩ := (firstOf?_eq_some_iff hm hf').mp h'
    rw [he, h'] at h
    exact (Option.some.inj h).symm
  have hinhabited : (inhabitedUnions m).Nodup := ho.filter _
  refine (List.perm_ext_iff_of_nodup hfirsts hinhabited).mpr fun o => ?_
  rw [List.mem_filterMap, Naming.mem_inhabitedUnions_iff]
  constructor
  · rintro ⟨f, hf, h⟩
    obtain ⟨hu, hhead⟩ := (firstOf?_eq_some_iff hm hf).mp h
    obtain ⟨ho, hreal, -⟩ := Message.mem_oneofs_of_union? hu
    exact ⟨ho, hreal, List.ne_nil_of_mem (List.mem_of_mem_head? hhead)⟩
  · rintro ⟨ho, -, hne⟩
    obtain ⟨f, r, hr⟩ := List.exists_cons_of_ne_nil hne
    obtain ⟨hf, hu⟩ := (Naming.mem_unionMembers_iff hm ho).mp (hr ▸ List.mem_cons_self)
    exact ⟨f, hf, (firstOf?_eq_some_iff hm hf).mpr ⟨hu, by rw [hr, List.head?_cons]⟩⟩

/-- Every union of a message has one first member. -/
theorem firstOf_perm (hm : m.Numbered) (hp : m.Proper) :
    (m.fields.filterMap (firstOf? m)).Perm (m.oneofs.filter (!·.synthetic)) := by
  have hinhabited : inhabitedUnions m = m.oneofs.filter (!·.synthetic) := by
    refine List.filter_congr fun o ho => ?_
    cases hreal : o.synthetic with
    | true => rfl
    | false =>
      obtain ⟨f, hf, hi⟩ := hp.unions o ho hreal
      have hu : m.union? f = some o := by
        simp [Message.union?, hi, Schema.getElem?_index hm.oneofs ho, hreal]
      have hne := List.ne_nil_of_mem ((Naming.mem_unionMembers_iff hm ho).mpr ⟨hf, hu⟩)
      simp [hne]
  exact hinhabited ▸ firstOf_perm_inhabited hm

/-- The items of a message where each field has its own or stands for the union that it is the first
member of. -/
theorem items_perm_of (hs : s.Fits m n) {plain : Field → Bool}
    (h : ∀ f ∈ m.fields, s.item? (s.member f) = if plain f then some (.field (s.member f))
      else (firstOf? m f).map fun o => .union (s.union o)) :
    s.items.Perm ((m.fields.filter plain).map (fun f => .field (s.member f)) ++
      ((m.fields.filter (!plain ·)).filterMap (firstOf? m)).map fun o => .union (s.union o)) := by
  let item (f : Field) : Option Item := s.item? (s.member f)
  have hitems : s.items = m.fields.filterMap item := by
    rw [Shape.items, hs.members, List.filterMap_map]
    rfl
  have hplain : (m.fields.filter plain).filterMap item =
      (m.fields.filter plain).map fun f => .field (s.member f) := by
    rw [← List.filterMap_eq_map]
    refine List.filterMap_congr fun f hf => ?_
    obtain ⟨hf, hp⟩ := List.mem_filter.mp hf
    exact (h f hf).trans (if_pos hp)
  have hunions : (m.fields.filter (!plain ·)).filterMap item =
      ((m.fields.filter (!plain ·)).filterMap (firstOf? m)).map fun o => .union (s.union o) := by
    rw [List.map_filterMap]
    refine List.filterMap_congr fun f hf => ?_
    obtain ⟨hf, hp⟩ := List.mem_filter.mp hf
    exact (h f hf).trans (if_neg (by simpa using hp))
  rw [hitems, ← hplain, ← hunions, ← List.filterMap_append]
  exact (List.filter_append_perm plain m.fields).symm.filterMap item

/-- Fields in no union are no first members. -/
theorem filterMap_firstOf? (m : Message) :
    (m.fields.filter fun f => !(m.union? f).isNone).filterMap (firstOf? m) =
      m.fields.filterMap (firstOf? m) := by
  rw [List.filterMap_filter]
  refine List.filterMap_congr fun f _ => ?_
  cases hu : m.union? f <;> simp [firstOf?, hu]

theorem memberLabel_member (hs : s.Fits m n) {f : Field} (hf : f ∈ m.fields) :
    memberLabel (s.member f) = (f.path, (n.field f).field) := by
  rw [memberLabel, hs.field f hf, hs.memberNames f hf]

theorem itemLabels_union (hs : s.Fits m n) {o : Oneof} (ho : o ∈ m.oneofs)
    (hreal : o.synthetic = false) :
    itemLabels (.union (s.union o)) =
      (unionMembers m o).map (fun f => (f.path, (n.field f).field)) ++
        [(o.path, (n.union o).field)] := by
  have hv : (s.union o).variants.map (memberLabel ·.member) =
      (unionMembers m o).map fun f => (f.path, (n.field f).field) := by
    have := congrArg (List.map memberLabel) (hs.variants o ho hreal)
    rw [List.map_map, List.map_map] at this
    refine Eq.trans this (List.map_congr_left fun f hf => ?_)
    exact memberLabel_member hs (List.mem_of_mem_filter hf)
  rw [itemLabels, hv, hs.oneof o ho hreal, hs.unionNames o ho hreal]

/-- The items of a message declare every field of it and every union once. -/
theorem items_perm (hm : m.Numbered) (hs : s.Fits m n) (hn : n.Fits m) (hp : m.Proper) :
    (s.items.flatMap itemLabels).Perm ((m.fields.map fun f => (f.path, (n.field f).field)) ++
      (m.oneofs.filter (!·.synthetic)).map fun o => (o.path, (n.union o).field)) := by
  let label (f : Field) : Label := (f.path, (n.field f).field)
  let reals := m.oneofs.filter (!·.synthetic)
  have hitems := (items_perm_of hs fun f hf => item?_eq hm hs hn hf (hp.fields f hf)).flatMap_right
    itemLabels
  rw [filterMap_firstOf?, List.flatMap_append, List.flatMap_map, List.flatMap_map] at hitems
  have hplain : (m.fields.filter fun f => (m.union? f).isNone).flatMap
      (fun f => itemLabels (.field (s.member f))) =
        (m.fields.filter fun f => (m.union? f).isNone).map label := by
    rw [List.map_eq_flatMap]
    refine List.flatMap_congr fun f hf => ?_
    rw [itemLabels, memberLabel_member hs (List.mem_of_mem_filter hf)]
  have hunions : reals.flatMap (fun o => itemLabels (.union (s.union o))) =
      reals.flatMap fun o => (unionMembers m o).map label ++ [(o.path, (n.union o).field)] := by
    refine List.flatMap_congr fun o ho => ?_
    obtain ⟨ho, hreal⟩ := List.mem_filter.mp ho
    exact itemLabels_union hs ho (by simpa using hreal)
  have hsplit : (reals.flatMap fun o => itemLabels (.union (s.union o))).Perm
      ((reals.flatMap (unionMembers m)).map label ++
        reals.map fun o => (o.path, (n.union o).field)) := by
    rw [hunions, List.map_flatMap, List.map_eq_flatMap (l := reals)]
    exact (List.flatMap_append_perm ..).symm
  have hreals := ((firstOf_perm hm hp).flatMap_right _).trans hsplit
  have hfields := (fields_perm hm).map label
  rw [List.map_append] at hfields
  rw [hplain] at hitems
  refine (hitems.trans (hreals.append_left _)).trans ?_
  rw [← List.append_assoc]
  exact hfields.append_right _

/-- Every union of a message has its accessor. -/
theorem accessors_eq (hs : s.Fits m n) : s.unions.reduceOption.map accessorLabel =
    (m.oneofs.filter (!·.synthetic)).map fun o => (o.path, (n.union o).caseGetter) := by
  have h : ∀ os ⊆ m.oneofs,
      (os.map fun o => if o.synthetic then none else some (s.union o)).reduceOption.map
          accessorLabel =
        (os.filter (!·.synthetic)).map fun o => (o.path, (n.union o).caseGetter) := by
    intro os hos
    induction os with
    | nil => rfl
    | cons o os ih =>
      obtain ⟨ho, hos⟩ := List.cons_subset.mp hos
      cases hreal : o.synthetic with
      | true => simpa [hreal] using ih hos
      | false =>
        have hl : accessorLabel (s.union o) = (o.path, (n.union o).caseGetter) := by
          rw [accessorLabel, hs.oneof o ho hreal, hs.unionNames o ho hreal]
        simpa [hreal, hl] using ih hos
  rw [hs.unions]
  exact h m.oneofs (List.Subset.refl _)

end Items

section Extensions

variable {ctx : Context} {m : Option Message}

/-- A field becomes an extension with the given names, or nothing if it is resolved otherwise. -/
theorem Extension.of_cases {f : Field} {names : ExtensionNames} {r : Option Extension}
    (h : Extension.of ctx m f names = .ok r) : ∃ p, ctx.classify m f = .ok p ∧
      (p.kind.isExtension ∧
          (∃ id, r = some ⟨p, names, (ctx.graph.message id).fullName⟩) ∨
        p.kind.isExtension = false ∧ r = none) := by
  simp only [Extension.of, bind_eq_ok_iff] at h
  obtain ⟨p, hp, h⟩ := h
  refine ⟨p, hp, ?_⟩
  split at h
  · next id _ _ hk => exact Or.inl ⟨by rw [hk]; rfl, id, (Except.ok.inj h).symm⟩
  · next hne =>
    refine Or.inr ⟨?_, (Except.ok.inj h).symm⟩
    cases hk : p.kind with
    | extension id repeated value => exact absurd hk (hne id repeated value)
    | _ => rfl

theorem Extension.of_ok {f : Field} {names : ExtensionNames} {r : Option Extension}
    (h : Extension.of ctx m f names = .ok r) (hx : f.extendee ≠ none) :
    ∃ x, r = some x ∧ x.label = (f.path, names.numberConst) := by
  obtain ⟨p, hp, ⟨-, id, rfl⟩ | ⟨hk, -⟩⟩ := Extension.of_cases h
  · obtain ⟨-, -, -, -, hf⟩ := classify_ok hp
    exact ⟨_, rfl, by rw [Extension.label, hf]⟩
  · rw [isExtension_of_classify hp hx] at hk
    exact Bool.noConfusion hk

theorem extensionsOf_eq_ok_iff {fields : List Field} {names : List ExtensionNames}
    {extensions : List Extension} : extensionsOf ctx m fields names = .ok extensions ↔
      ∃ results, List.Forall₂ (fun p r => Extension.of ctx m p.1 p.2 = .ok r)
        (fields.zip names) results ∧ results.filterMap id = extensions := by
  simp only [extensionsOf, bind_eq_ok_iff, pure_eq_ok_iff, mapM_eq_ok_iff]

/-- An extension among those of some fields is one of them, with its names. -/
theorem exists_of_mem_extensionsOf {fields : List Field} {names : List ExtensionNames}
    {extensions : List Extension} (h : extensionsOf ctx m fields names = .ok extensions)
    {x : Extension} (hx : x ∈ extensions) : ∃ f ∈ fields, ∃ n ∈ names,
      ctx.classify m f = .ok x.property ∧ x.names = n ∧
        ∃ id, x.target = (ctx.graph.message id).fullName := by
  obtain ⟨results, hr, rfl⟩ := extensionsOf_eq_ok_iff.mp h
  obtain ⟨_, hmem, rfl⟩ := List.mem_filterMap.mp hx
  obtain ⟨⟨f, n⟩, hzip, hok⟩ := forall₂_exists_right hr hmem
  obtain ⟨hf, hn⟩ := List.of_mem_zip hzip
  obtain ⟨p, hp, ⟨-, id, hsome⟩ | ⟨-, hnone⟩⟩ := Extension.of_cases hok
  · obtain rfl := Option.some.inj hsome
    exact ⟨f, hf, n, hn, hp, rfl, id, rfl⟩
  · exact nomatch hnone

/-- Extensions are named as planned, in order. -/
theorem extensionsOf_names {fields : List Field} {names : List ExtensionNames}
    {extensions : List Extension} (h : extensionsOf ctx m fields names = .ok extensions) :
    (extensions.map (·.names)).Sublist names := by
  rw [extensionsOf_eq_ok_iff] at h
  obtain ⟨results, hr, rfl⟩ := h
  have hnames : ∀ {f : Field} {n : ExtensionNames} {r : Option Extension},
      Extension.of ctx m f n = .ok r → (r.toList.map (·.names)).Sublist [n] := by
    intro f n r h
    obtain ⟨p, -, ⟨-, id, rfl⟩ | ⟨-, rfl⟩⟩ := Extension.of_cases h <;> simp
  induction fields generalizing names results with
  | nil =>
    cases hr
    exact List.nil_sublist _
  | cons f fields ih =>
    cases names with
    | nil =>
      cases hr
      exact List.nil_sublist _
    | cons n names =>
      cases hr with
      | @cons _ r _ rs h hr =>
        have hall := (hnames h).append (ih rs hr)
        cases r <;> simpa using hall

theorem Extension.of_eq_none {f : Field} {names : ExtensionNames} {r : Option Extension}
    (h : Extension.of ctx m f names = .ok r) (hx : f.extendee = none) : r = none := by
  obtain ⟨p, hp, ⟨hk, -⟩ | ⟨-, rfl⟩⟩ := Extension.of_cases h
  · rw [(oneof?_of_classify hp hx).2] at hk
    exact Bool.noConfusion hk
  · rfl

/-- The labels of what is found among fields, which are of those that extend something. -/
theorem extensions_labels {ps : List (Field × ExtensionNames)} {rs : List (Option Extension)}
    (h : List.Forall₂ (fun p r => Extension.of ctx m p.1 p.2 = .ok r) ps rs) :
    (rs.filterMap id).map Extension.label =
      (ps.filter (·.1.extendee.isSome)).map fun p => (p.1.path, p.2.numberConst) := by
  induction h with
  | nil => rfl
  | @cons p r _ _ h _ ih =>
    cases hx : p.1.extendee with
    | none =>
      obtain rfl := Extension.of_eq_none h hx
      simpa [hx] using ih
    | some extendee =>
      obtain ⟨x, rfl, hlabel⟩ := Extension.of_ok h (by simp [hx])
      simpa [hx, hlabel] using ih

/-- The extensions of a place are the fields there that extend something, in order. -/
theorem extensionsOf_labels_extending {fields : List Field} {names : List ExtensionNames}
    {extensions : List Extension} (h : extensionsOf ctx m fields names = .ok extensions)
    (hi : fields.map (·.index) = List.range fields.length) (hl : names.length = fields.length) :
    extensions.map Extension.label = (fields.filter (·.extendee.isSome)).map fun x =>
      (x.path, (extensionNames names x).numberConst) := by
  obtain ⟨results, hr, rfl⟩ := extensionsOf_eq_ok_iff.mp h
  have hzip : fields.zip names = fields.map fun x => (x, extensionNames names x) := by
    refine Schema.eq_map_of_index hi (by simp [hl]) fun x hx => ?_
    have hget := Schema.getElem?_index hi hx
    have hkn : x.index < names.length := hl ▸ (List.getElem?_eq_some_iff.mp hget).1
    have hnames : names[x.index]? = some (extensionNames names x) := by simp [extensionNames, hkn]
    exact List.getElem?_zip_eq_some.mpr ⟨hget, hnames⟩
  rw [extensions_labels hr, hzip, List.filter_map, List.map_map]
  rfl

/-- Every extension of a place is declared in order. -/
theorem extensionsOf_labels {fields : List Field} {names : List ExtensionNames}
    {extensions : List Extension} (h : extensionsOf ctx m fields names = .ok extensions)
    (hi : fields.map (·.index) = List.range fields.length) (hl : names.length = fields.length)
    (hx : ∀ x ∈ fields, x.extendee ≠ none) :
    extensions.map Extension.label =
      fields.map fun x => (x.path, (extensionNames names x).numberConst) := by
  rw [extensionsOf_labels_extending h hi hl, List.filter_eq_self.mpr]
  intro x hxm
  exact Option.isSome_iff_ne_none.mpr (hx x hxm)

end Extensions

end ProtoJava.Bean
