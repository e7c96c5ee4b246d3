import ProtoJava.Proofs.Naming.Collisions

/-! # Names of accessors

The names in the plan of a message, field by field and union by union. The methods of a union have
names just if the union has members.
-/

namespace ProtoJava.Naming

open Schema (File Message Field Oneof Graph MessageId)

theorem reduceOption_map_ite {α β : Type} (p : α → Bool) (g : α → β) (l : List α) :
    (l.map fun a => if p a then none else some (g a)).reduceOption =
      (l.filter (!p ·)).map g := by
  induction l with
  | nil => rfl
  | cons a l ih => cases hp : p a <;> simp [hp, ih]

/-- The names of the methods of a union in the class that holds it. -/
def UnionNames.methods (u : UnionNames) : List String :=
  u.caseGetter :: u.variants.flatMap fun v => [v.setter, v.getter]

/-- The names in the class of a message are each given once, to fields, unions with members and
constants. -/
structure MessageNames.Scoped (n : MessageNames) (m : Message) : Prop where
  identifiers : Distinct objectMethods (n.identifiers m)
  methods : ∀ o ∈ m.oneofs, o.synthetic = false → ∀ x ∈ (n.union o).methods,
    x = "" ↔ unionMembers m o = []
  constants : ∀ o ∈ m.oneofs, o.synthetic = false → Distinct enumMembers (n.union o).constants
  defaults : ∀ f ∈ m.fields, (n.field f).defaultConst.isSome = hasDefaultConst f

section Fits

variable {m : Message} {n : MessageNames} (hm : m.Numbered) (hn : n.Fits m)

include hm hn

theorem MessageNames.Fits.fields_eq : n.fields = m.fields.map n.field := by
  refine Schema.eq_map_of_index hm.fields hn.fields fun f hf => ?_
  have hlt : f.index < n.fields.length := by
    rw [hn.fields]
    exact (List.getElem?_eq_some_iff.mp (Schema.getElem?_index hm.fields hf)).1
  simp [MessageNames.field, hlt]

theorem MessageNames.Fits.identifiers_eq : n.identifiers m =
    ((m.fields.filter fun f => (m.union? f).isNone).map fun f => (n.field f).field) ++
      (inhabitedUnions m).flatMap (fun o => (n.union o).identifiers) ++
      n.fields.map (·.numberConst) ++ n.fields.filterMap (·.defaultConst) ++
      n.extensions.flatMap fun x => [x.numberConst, x.extendeeConst] := by
  have hplain : ((m.fields.zip n.fields).filter fun p => (m.union? p.1).isNone).map (·.2.field) =
      (m.fields.filter fun f => (m.union? f).isNone).map fun f => (n.field f).field := by
    rw [MessageNames.Fits.fields_eq hm hn, ← List.map_prod_left_eq_zip, List.filter_map,
      List.map_map]
    rfl
  have hunions : n.unions.reduceOption.filter (!·.variants.isEmpty) =
      (inhabitedUnions m).map n.union := by
    rw [hn.unions, reduceOption_map_ite, List.filter_map, List.filter_filter, inhabitedUnions]
    congr 1
    refine List.filter_congr fun o ho => ?_
    cases hs : o.synthetic with
    | true => simp
    | false => simp [hn.variants_eq hm ho hs]
  rw [MessageNames.identifiers, hplain, hunions, List.flatMap_map]

end Fits

/-- A method of a union. -/
def MemberRole.isAccessor : MemberRole → Bool
  | caseGetter _ | setter _ | getter _ => true
  | _ => false

section Accessors

variable {m : Message} {role : MemberRole}

theorem fieldRequest_ne_empty (f : Field) :
    ∀ request ∈ fieldRequests m f, request.1.isAccessor → request.2 ≠ "" := by
  rw [fieldRequests]
  split
  · rw [unionMemberRequests]
    split <;> simp [MemberRole.isAccessor]
  · simp [MemberRole.isAccessor]

/-- Accessors are asked for by names that start with a verb. -/
theorem memberRequest_ne_empty :
    ∀ request ∈ memberRequests m, request.1.isAccessor → request.2 ≠ "" := by
  intro request h
  simp only [memberRequests, List.mem_append, List.mem_flatMap, List.mem_map, List.mem_filter,
    extensionRequests, List.mem_cons, List.not_mem_nil, or_false] at h
  rcases h with ((⟨f, -, h⟩ | ⟨f, -, rfl⟩) | ⟨f, -, rfl⟩) | ⟨x, -, rfl | rfl⟩
  · exact fieldRequest_ne_empty f request h
  all_goals exact fun hr => Bool.noConfusion hr

theorem accessor_ne_empty (hm : m.Numbered) (h : role ∈ memberRoles m) (hr : role.isAccessor) :
    nameFor (memberTable m) role ≠ "" := by
  have hgranted := nameFor_mem_grant (r := Registry.reserving.reserve objectMethods)
    (mem_memberRequests hm h)
  obtain ⟨name, hname, hv⟩ := Registry.grant_isVariant hgranted
  have hne := memberRequest_ne_empty (role, name) hname hr
  rcases hv with hv | ⟨k, hv⟩
  · exact fun he => hne (hv.symm.trans he)
  · intro he
    have := hv.symm.trans he
    simp [hne] at this

/-- A union without members asks for no getter of its case. -/
theorem caseGetter_eq_empty {o : Oneof} (hm : m.Numbered) (ho : o ∈ m.oneofs)
    (hempty : unionMembers m o = []) :
    nameFor (memberTable m) (.caseGetter o.index) = "" := by
  have hfield : ∀ f, MemberRole.caseGetter o.index ∉ (fieldRequests m f).map (·.1) := by
    intro f h
    rw [fieldRequests] at h
    split at h
    · next o' hu =>
      obtain ⟨ho', -⟩ := Message.mem_oneofs_of_union? hu
      rw [unionMemberRequests] at h
      split at h
      · next hh =>
        have hindex : o.index = o'.index := by simpa using h
        rw [← hm.oneof_ext ho ho' hindex, hempty] at hh
        exact Bool.noConfusion hh
      · simp at h
    · simp at h
  have hnone : (memberTable m).lookup (.caseGetter o.index) = none := by
    apply lookup_eq_none
    rw [memberTable, Registry.grant_roles]
    simp only [memberRequests, List.map_append, List.mem_append, List.map_flatMap,
      List.mem_flatMap, List.map_map, List.mem_map, extensionRequests]
    rintro (((⟨f, -, h⟩ | ⟨f, -, h⟩) | ⟨f, -, h⟩) | ⟨x, -, h⟩)
    · exact hfield f (List.mem_map.mpr h)
    all_goals simp at h
  rw [nameFor, hnone]
  rfl

end Accessors

/-- The names in the plan of a message are scoped. -/
theorem messageNames_scoped {f : File} {classes : Classes} {methods : List (ConverterRole × String)}
    {i : Nat} (hm : (f.message i).Numbered) :
    (messageNames f classes methods i).Scoped (f.message i) := by
  have hunion : ∀ o ∈ (f.message i).oneofs, o.synthetic = false →
      unionNames (f.message i) (classes.scopes.getD i []) (memberTable (f.message i)) o =
        some ((messageNames f classes methods i).union o) := by
    intro o ho hs
    simp [MessageNames.union, messageNames, Schema.getElem?_index hm.oneofs ho, unionNames, hs]
  constructor
  case identifiers => exact identifiers_distinct rfl rfl rfl hm
  case methods =>
    intro o ho hs x hx
    have hu := hunion o ho hs
    rw [unionNames, hs] at hu
    have hu := Option.some.inj hu
    simp only [← hu, UnionNames.methods, List.flatMap_map, List.mem_cons, List.mem_flatMap,
      List.not_mem_nil, or_false] at hx
    have hrole : ∀ role ∈ unionRoles (f.message i) o, unionMembers (f.message i) o ≠ [] →
        role ∈ memberRoles (f.message i) := fun role h hne =>
      mem_memberRoles_of_union (mem_inhabitedUnions_iff.mpr ⟨ho, hs, hne⟩) h
    rcases hx with rfl | ⟨fld, hf, hx⟩
    · constructor
      · intro hx
        by_contra hne
        have hgetter := hrole (.caseGetter o.index) (mem_unionRoles_iff.mpr (Or.inr (Or.inl rfl)))
        exact accessor_ne_empty hm (hgetter hne) rfl hx
      · exact caseGetter_eq_empty hm ho
    · have hne := List.ne_nil_of_mem hf
      refine iff_of_false ?_ hne
      rcases hx with rfl | rfl
      · exact accessor_ne_empty hm (hrole (.setter fld.index)
          (mem_unionRoles_iff.mpr (Or.inr (Or.inr ⟨fld, hf, Or.inl rfl⟩))) hne) rfl
      · exact accessor_ne_empty hm (hrole (.getter fld.index)
          (mem_unionRoles_iff.mpr (Or.inr (Or.inr ⟨fld, hf, Or.inr rfl⟩))) hne) rfl
  case constants => exact fun o ho hs => constants_distinct hm (hunion o ho hs)
  case defaults =>
    intro fld hf
    have hfield : (messageNames f classes methods i).field fld =
        memberNames (f.message i) (memberTable (f.message i)) fld := by
      simp [MessageNames.field, messageNames, Schema.getElem?_index hm.fields hf]
    have hconst : ((messageNames f classes methods i).field fld).defaultConst =
        (memberTable (f.message i)).lookup (.default fld.index) := by
      rw [hfield, memberNames]
    rw [hconst, lookup_default hm hf]
    split <;> simp [*]

end ProtoJava.Naming
