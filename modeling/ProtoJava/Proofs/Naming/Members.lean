import Mathlib.Data.List.ReduceOption
import ProtoJava.Naming.Members
import ProtoJava.Proofs.Naming.Freshness
import ProtoJava.Proofs.Schema.Built

/-! # Names of members

The identifiers in one bean class are granted in one registry, so they are pairwise distinct and
none is reserved; the constants of one case enum are so, too.
-/

namespace ProtoJava.Naming

open Schema (Message Field Oneof)

/-- The names of the members of a union in the class that holds it. -/
def UnionNames.identifiers (u : UnionNames) : List String :=
  u.field :: u.caseGetter :: u.variants.flatMap fun v => [v.setter, v.getter]

/-- The identifiers of the members of a class: fields that are in no union, unions with a member,
and constants. -/
def MessageNames.identifiers (m : Message) (n : MessageNames) : List String :=
  ((m.fields.zip n.fields).filter fun p => (m.union? p.1).isNone).map (·.2.field) ++
    (n.unions.reduceOption.filter (!·.variants.isEmpty)).flatMap UnionNames.identifiers ++
    n.fields.map (·.numberConst) ++ n.fields.filterMap (·.defaultConst) ++
    n.extensions.flatMap fun x => [x.numberConst, x.extendeeConst]

/-- The constants of the case enum of a union. -/
def UnionNames.constants (u : UnionNames) : List String :=
  u.variants.map (·.caseConstant) ++ [u.notSet]

section Unions

variable {m : Message} (hm : m.Numbered)

include hm

theorem mem_unionMembers_iff {f : Field} {o : Oneof} (ho : o ∈ m.oneofs) :
    f ∈ unionMembers m o ↔ f ∈ m.fields ∧ m.union? f = some o := by
  simp only [unionMembers, List.mem_filter, and_congr_right_iff, Option.any_eq_true, beq_iff_eq]
  intro _
  constructor
  · rintro ⟨o', h, hi⟩
    rw [h, hm.oneof_ext (Message.mem_oneofs_of_union? h).1 ho hi]
  · exact fun h => ⟨o, h, rfl⟩

/-- Roles for unions and for their members are distinct, if roles tell what they stand for. -/
theorem unionRoles_nodup {ρ : Type} (outer inner : Nat → List ρ) {os : List Oneof}
    (hs : os ⊆ m.oneofs) (hd : os.Nodup) (ho : ∀ i, (outer i).Nodup)
    (hi : ∀ i, (inner i).Nodup) (hoo : ∀ i j, ∀ role ∈ outer i, role ∈ outer j → i = j)
    (hii : ∀ i j, ∀ role ∈ inner i, role ∈ inner j → i = j)
    (hoi : ∀ i j, ∀ role ∈ outer i, role ∉ inner j) :
    (os.flatMap fun o => outer o.index ++
      (unionMembers m o).flatMap fun f => inner f.index).Nodup := by
  have hf : (m.fields.map (·.index)).Nodup := hm.fields ▸ List.nodup_range
  refine List.nodup_flatMap.mpr ⟨fun o _ => List.Nodup.append (ho _) ?_ ?_, ?_⟩
  · exact roles_nodup inner (hf.sublist (List.filter_sublist.map _)) hi hii
  · intro role h h'
    obtain ⟨f, -, h'⟩ := List.mem_flatMap.mp h'
    exact hoi _ _ role h h'
  · refine hd.imp_of_mem fun hmem hmem' hne role h h' => hne ?_
    rcases List.mem_append.mp h with h | h <;> rcases List.mem_append.mp h' with h' | h'
    · exact hm.oneof_ext (hs hmem) (hs hmem') (hoo _ _ role h h')
    · obtain ⟨f, -, h'⟩ := List.mem_flatMap.mp h'
      exact absurd h' (hoi _ _ role h)
    · obtain ⟨f, -, h⟩ := List.mem_flatMap.mp h
      exact absurd h (hoi _ _ role h')
    -- A member that two unions share has only one of them as its union.
    · obtain ⟨f, hmf, h⟩ := List.mem_flatMap.mp h
      obtain ⟨f', hmf', h'⟩ := List.mem_flatMap.mp h'
      obtain ⟨hmf, hu⟩ := (mem_unionMembers_iff hm (hs hmem)).mp hmf
      obtain ⟨hmf', hu'⟩ := (mem_unionMembers_iff hm (hs hmem')).mp hmf'
      rw [hm.field_ext hmf hmf' (hii _ _ role h h'), hu'] at hu
      exact (Option.some.inj hu).symm

end Unions

/-- The roles of the members of a union in the class that holds it. -/
def unionRoles (m : Message) (o : Oneof) : List MemberRole :=
  .union o.index :: .caseGetter o.index ::
    (unionMembers m o).flatMap fun f => [.setter f.index, .getter f.index]

/-- The oneofs of a message that are unions with a member. -/
def inhabitedUnions (m : Message) : List Oneof :=
  m.oneofs.filter fun o => !o.synthetic && !(unionMembers m o).isEmpty

/-- The roles of the members of a class. -/
def memberRoles (m : Message) : List MemberRole :=
  (m.fields.filter fun f => (m.union? f).isNone).map (fun f => .field f.index) ++
    (inhabitedUnions m).flatMap (unionRoles m) ++
    m.fields.map (fun f => .number f.index) ++
    (m.fields.filter hasDefaultConst).map (fun f => .default f.index) ++
    m.extensions.flatMap fun x => [.extensionNumber x.index, .extensionExtendee x.index]

section Roles

variable {m : Message}

theorem mem_memberRoles_iff {role : MemberRole} : role ∈ memberRoles m ↔
    (∃ f ∈ m.fields, m.union? f = none ∧ role = .field f.index) ∨
    (∃ o ∈ inhabitedUnions m, role ∈ unionRoles m o) ∨
    (∃ f ∈ m.fields, role = .number f.index) ∨
    (∃ f ∈ m.fields, hasDefaultConst f ∧ role = .default f.index) ∨
    ∃ x ∈ m.extensions, role = .extensionNumber x.index ∨ role = .extensionExtendee x.index := by
  simp only [memberRoles, List.mem_append, List.mem_map, List.mem_filter, List.mem_flatMap,
    Option.isNone_iff_eq_none, List.mem_cons, List.not_mem_nil, or_false, or_assoc, and_assoc,
    eq_comm (a := role)]

theorem mem_unionRoles_iff {o : Oneof} {role : MemberRole} : role ∈ unionRoles m o ↔
    role = .union o.index ∨ role = .caseGetter o.index ∨
      ∃ f ∈ unionMembers m o, role = .setter f.index ∨ role = .getter f.index := by
  simp [unionRoles]

theorem mem_inhabitedUnions_iff {o : Oneof} : o ∈ inhabitedUnions m ↔
    o ∈ m.oneofs ∧ o.synthetic = false ∧ unionMembers m o ≠ [] := by
  simp [inhabitedUnions]

theorem mem_memberRoles_of_union {o : Oneof} (ho : o ∈ inhabitedUnions m) {role : MemberRole}
    (h : role ∈ unionRoles m o) : role ∈ memberRoles m :=
  mem_memberRoles_iff.mpr (Or.inr (Or.inl ⟨o, ho, h⟩))

theorem mem_fieldRequests {f : Field} {role : MemberRole} (hf : f ∈ m.fields)
    (h : role ∈ (fieldRequests m f).map (·.1)) : role ∈ (memberRequests m).map (·.1) := by
  obtain ⟨request, hr, rfl⟩ := List.mem_map.mp h
  refine List.mem_map_of_mem ?_
  simp only [memberRequests, List.mem_append, List.mem_flatMap]
  exact Or.inl (Or.inl (Or.inl ⟨f, hf, hr⟩))

/-- Every role in a class is asked for. -/
theorem mem_memberRequests (hm : m.Numbered) {role : MemberRole} (h : role ∈ memberRoles m) :
    role ∈ (memberRequests m).map (·.1) := by
  rcases mem_memberRoles_iff.mp h with ⟨f, hf, hu, rfl⟩ | ⟨o, ho, h⟩ | ⟨f, hf, rfl⟩ |
    ⟨f, hf, hd, rfl⟩ | ⟨x, hx, h⟩
  · exact mem_fieldRequests hf (by simp [fieldRequests, hu])
  · obtain ⟨hmem, -, hne⟩ := mem_inhabitedUnions_iff.mp ho
    rcases mem_unionRoles_iff.mp h with h | h | ⟨f, hf, h⟩
    -- The first member of a union asks for what belongs to the whole union.
    · obtain ⟨f, r, hr⟩ := List.exists_cons_of_ne_nil hne
      obtain ⟨hf, hu⟩ := (mem_unionMembers_iff hm hmem).mp (hr ▸ List.mem_cons_self)
      exact mem_fieldRequests hf (by simp [fieldRequests, hu, unionMemberRequests, hr, h])
    · obtain ⟨f, r, hr⟩ := List.exists_cons_of_ne_nil hne
      obtain ⟨hf, hu⟩ := (mem_unionMembers_iff hm hmem).mp (hr ▸ List.mem_cons_self)
      exact mem_fieldRequests hf (by simp [fieldRequests, hu, unionMemberRequests, hr, h])
    · obtain ⟨hf, hu⟩ := (mem_unionMembers_iff hm hmem).mp hf
      refine mem_fieldRequests hf ?_
      rcases h with rfl | rfl <;> simp [fieldRequests, hu]
  · simp only [memberRequests, List.map_append, List.mem_append, List.map_map, List.mem_map]
    exact Or.inl (Or.inl (Or.inr ⟨f, hf, rfl⟩))
  · simp only [memberRequests, List.map_append, List.mem_append, List.map_map, List.mem_map,
      List.mem_filter]
    exact Or.inl (Or.inr ⟨f, ⟨hf, hd⟩, rfl⟩)
  · simp only [memberRequests, List.map_append, List.mem_append, extensionRequests,
      List.map_flatMap, List.mem_flatMap]
    refine Or.inr ⟨x, hx, ?_⟩
    rcases h with rfl | rfl <;> simp

theorem memberRoles_nodup (hm : m.Numbered) : (memberRoles m).Nodup := by
  have hf : (m.fields.map (·.index)).Nodup := hm.fields ▸ List.nodup_range
  have hx : (m.extensions.map (·.index)).Nodup := hm.extensions ▸ List.nodup_range
  have ho : m.oneofs.Nodup := List.Nodup.of_map _ (hm.oneofs ▸ List.nodup_range)
  refine List.Nodup.append (List.Nodup.append (List.Nodup.append (List.Nodup.append
    ?fields ?unions ?du) ?numbers ?dn) ?defaults ?dd) ?extensions ?dx
  case fields =>
    refine List.Nodup.of_map (fun | .field i => i | _ => 0) ?_
    rw [List.map_map]
    exact hf.sublist (List.filter_sublist.map _)
  case numbers =>
    refine List.Nodup.of_map (fun | .number i => i | _ => 0) ?_
    rwa [List.map_map]
  case defaults =>
    refine List.Nodup.of_map (fun | .default i => i | _ => 0) ?_
    rw [List.map_map]
    exact hf.sublist (List.filter_sublist.map _)
  case unions =>
    exact unionRoles_nodup hm (fun o => [MemberRole.union o, .caseGetter o])
      (fun f => [.setter f, .getter f]) (List.filter_subset_self _) (ho.filter _)
      (by simp) (by simp) (by simp) (by simp) (by simp)
  case extensions =>
    exact roles_nodup (fun x => [MemberRole.extensionNumber x, .extensionExtendee x]) hx
      (by simp) (by simp)
  -- Roles of different groups have different constructors.
  all_goals
    simp only [List.disjoint_left, List.mem_append, List.mem_map, List.mem_flatMap,
      mem_unionRoles_iff]
    intro role h h'
    aesop

/-- Exactly the fields with a constant for their default are granted one. -/
theorem lookup_default (hm : m.Numbered) {f : Field} (hf : f ∈ m.fields) :
    (memberTable m).lookup (.default f.index) =
      if hasDefaultConst f then some (nameFor (memberTable m) (.default f.index)) else none := by
  split
  · next hd =>
    have hr : MemberRole.default f.index ∈ memberRoles m :=
      mem_memberRoles_iff.mpr (Or.inr (Or.inr (Or.inr (Or.inl ⟨f, hf, hd, rfl⟩))))
    exact lookup_grant (mem_memberRequests hm hr)
  · next hd =>
    apply lookup_eq_none
    rw [memberTable, Registry.grant_roles]
    simp only [memberRequests, List.map_append, List.mem_append, List.map_flatMap,
      List.mem_flatMap, List.map_map, List.mem_map, List.mem_filter, extensionRequests]
    rintro (((⟨f', -, h⟩ | ⟨f', -, h⟩) | ⟨f', ⟨hf', hd'⟩, h⟩) | ⟨x, -, h⟩)
    · simp only [fieldRequests, unionMemberRequests] at h
      split at h
      · split at h <;> simp at h
      · simp at h
    · simp at h
    · rw [hm.field_ext hf' hf (by simpa using h)] at hd'
      exact hd hd'
    · simp at h

theorem unions_identifiers (scope : ClassTable) (os : List Oneof) :
    ((os.map (unionNames m scope (memberTable m))).reduceOption.filter
      (!·.variants.isEmpty)).flatMap UnionNames.identifiers =
    ((os.filter fun o => !o.synthetic && !(unionMembers m o).isEmpty).flatMap (unionRoles m)).map
      (nameFor (memberTable m)) := by
  induction os with
  | nil => rfl
  | cons o os ih =>
    by_cases hs : o.synthetic
    · simpa [unionNames, hs] using ih
    · by_cases he : unionMembers m o = []
      · simpa [unionNames, hs, he] using ih
      · simpa [unionNames, hs, he, UnionNames.identifiers, unionRoles,
          List.flatMap_map, List.map_flatMap] using ih

/-- The members of a class are named by their roles. -/
theorem identifiers_eq {n : MessageNames} {scope : ClassTable}
    (hfields : n.fields = m.fields.map (memberNames m (memberTable m)))
    (hunions : n.unions = m.oneofs.map (unionNames m scope (memberTable m)))
    (hextensions : n.extensions = extensionNames (memberTable m) m.extensions) (hm : m.Numbered) :
    n.identifiers m = (memberRoles m).map (nameFor (memberTable m)) := by
  have hplain : ((m.fields.zip n.fields).filter fun p => (m.union? p.1).isNone).map (·.2.field) =
      ((m.fields.filter fun f => (m.union? f).isNone).map fun f => .field f.index).map
        (nameFor (memberTable m)) := by
    rw [hfields, ← List.map_prod_left_eq_zip, List.filter_map, List.map_map, List.map_map]
    refine List.map_congr_left fun f hf => ?_
    have hu : m.union? f = none := by simpa using (List.mem_filter.mp hf).2
    simp [memberNames, hu]
  have hdefaults : n.fields.filterMap (·.defaultConst) =
      ((m.fields.filter hasDefaultConst).map fun f => .default f.index).map
        (nameFor (memberTable m)) := by
    rw [hfields, List.filterMap_map, List.map_map, ← List.filterMap_eq_filter, List.map_filterMap]
    refine List.filterMap_congr fun f hf => ?_
    by_cases hd : hasDefaultConst f <;> simp [memberNames, lookup_default hm hf, hd, Option.guard]
  simp only [MessageNames.identifiers, memberRoles, List.map_append, hplain, hdefaults, hunions,
    unions_identifiers, inhabitedUnions]
  simp [hfields, hextensions, extensionNames, memberNames, List.map_flatMap, List.flatMap_map]

/-- The identifiers in the class of a message are distinct and not reserved. -/
theorem identifiers_distinct {n : MessageNames} {scope : ClassTable}
    (hfields : n.fields = m.fields.map (memberNames m (memberTable m)))
    (hunions : n.unions = m.oneofs.map (unionNames m scope (memberTable m)))
    (hextensions : n.extensions = extensionNames (memberTable m) m.extensions) (hm : m.Numbered) :
    Distinct objectMethods (n.identifiers m) :=
  nameFor_distinct (memberRoles_nodup hm) (fun _ => mem_memberRequests hm)
    (identifiers_eq hfields hunions hextensions hm)

/-- Requests for the constants of the case enum of a union. -/
def caseRequests (members : List Field) (o : Oneof) : List (CaseRole × String) :=
  (members.map fun f => (.variant f.index, upperSnake f.name)) ++
    [(.notSet, upperSnake o.name ++ "_NOT_SET")]

theorem caseTable_eq (members : List Field) (o : Oneof) : caseTable members o =
    ((Registry.reserving.reserve enumMembers).grant (caseRequests members o)).1 := rfl

/-- The constants of a case enum are distinct and not reserved. -/
theorem constants_distinct (hm : m.Numbered) {scope : ClassTable} {table : MemberTable}
    {o : Oneof} {u : UnionNames} (h : unionNames m scope table o = some u) :
    Distinct enumMembers u.constants := by
  unfold unionNames at h
  split at h
  · simp at h
  · obtain rfl := Option.some.inj h
    have hi : ((unionMembers m o).map (·.index)).Nodup :=
      (hm.fields ▸ List.nodup_range : (m.fields.map (·.index)).Nodup).sublist
        (List.filter_sublist.map _)
    have hd : (((unionMembers m o).map fun f => CaseRole.variant f.index) ++
        [CaseRole.notSet]).Nodup := by
      refine List.Nodup.append ?_ (by simp) (by simp)
      refine List.Nodup.of_map (fun | .variant i => i | _ => 0) ?_
      rwa [List.map_map]
    have hr : (caseRequests (unionMembers m o) o).map (·.1) =
        ((unionMembers m o).map fun f => CaseRole.variant f.index) ++ [.notSet] := by
      simp [caseRequests]
    refine nameFor_distinct hd (fun _ h => hr ▸ h) ?_
    simp [UnionNames.constants, caseTable_eq]

end Roles

end ProtoJava.Naming
