import Mathlib.Data.List.Flatten
import Mathlib.Data.List.Pairwise
import Mathlib.Data.List.Perm.Subperm
import ProtoJava.Proofs.Bean.Items
import ProtoJava.Proofs.Bean.Programs
import ProtoJava.Proofs.Naming.Accessors

/-! # Names in the class of a message

The names of the classes, the fields and the methods in the class of a message, part by part. They
are names that were granted for the message, each once, so every part is what its name means.
-/

namespace ProtoJava.Bean

open Java
open Mapping
open Naming (MessageNames UnionNames unionMembers inhabitedUnions)
open Schema (Message Field Oneof)

section Lists

variable {α : Type} {a b : List String} {x : String}

theorem count_eq_one_of_subperm (h : a.Subperm b) (hb : b.Nodup) (hx : x ∈ a) : a.count x = 1 := by
  have hle := (h.count_le x).trans (List.nodup_iff_count_le_one.mp hb x)
  have hpos := List.count_pos_iff.mpr hx
  omega

/-- Elements whose lists do not have an entry do not count. -/
theorem count_flatMap_filter (l : List α) (f : α → List String) (p : α → Bool)
    (h : ∀ y ∈ l, p y = false → x ∉ f y) :
    (l.flatMap f).count x = ((l.filter p).flatMap f).count x := by
  induction l with
  | nil => rfl
  | cons y l ih =>
    rw [List.forall_mem_cons] at h
    rw [List.flatMap_cons, List.count_append, ih h.2, List.filter_cons]
    split
    · rw [List.flatMap_cons, List.count_append]
    · next hp => rw [List.count_eq_zero.mpr (h.1 (by simpa using hp)), Nat.zero_add]

/-- Lists that are empty but for one element. -/
theorem flatMap_eq_of_mem {l : List α} {f : α → List String} {y : α} (hl : l.Nodup) (hy : y ∈ l)
    (h : ∀ z ∈ l, z ≠ y → f z = []) : l.flatMap f = f y := by
  obtain ⟨before, after, rfl⟩ := List.append_of_mem hy
  rw [List.nodup_append] at hl
  obtain ⟨-, hafter, hd⟩ := hl
  have hbefore : before.flatMap f = [] := by
    rw [List.flatMap_eq_nil_iff]
    exact fun z hz => h z (List.mem_append_left _ hz) (hd z hz y List.mem_cons_self)
  have hrest : after.flatMap f = [] := by
    rw [List.flatMap_eq_nil_iff]
    intro z hz
    apply h z (List.mem_append_right _ (List.mem_cons_of_mem _ hz))
    rintro rfl
    exact (List.nodup_cons.mp hafter).1 hz
  rw [List.flatMap_append, List.flatMap_cons, hbefore, hrest, List.nil_append, List.append_nil]

end Lists

namespace Part

/-- The name of a part that is a class, an interface or an enum. -/
def typeName : Part → Option String
  | caseEnum u => some u.names.caseEnum
  | iface u => some u.names.iface
  | wrapper _ v => some v.names.wrapper
  | nested name => some name
  | _ => none

def methodName : Part → Option String
  | caseGetter u => some u.names.caseGetter
  | setter _ v => some v.names.setter
  | getter _ v => some v.names.getter
  | shown => some "toString"
  | _ => none

/-- The name of a class that implements an interface. -/
def implementing (iface : String) : Part → Option String
  | wrapper u v => if u.names.iface = iface then some v.names.wrapper else none
  | _ => none

/-- The name of a part that is a field or a constant. -/
def variableName : Part → Option String
  | field m => some m.names.field
  | holder u => some u.names.field
  | number m => some m.names.numberConst
  | constant m => m.names.defaultConst
  | extensionNumber x => some x.names.numberConst
  | extendee x => some x.names.extendeeConst
  | _ => none

/-- Whether a part is the constant for a number, a default or an extension. -/
def isConstant : Part → Bool
  | number _ | constant _ | extensionNumber _ | extendee _ => true
  | _ => false

/-- Whether a part is a class, an interface or an enum. -/
def isType : Part → Bool
  | caseEnum _ | iface _ | wrapper .. | nested _ => true
  | _ => false

variable {ctx : Context} {p : Part} {d : Decl}

theorem isType_of_isConstant (h : p.isConstant) : p.isType = false := by
  cases p <;> first | rfl | simp [isConstant] at h

theorem methodName_of_isConstant (h : p.isConstant) : p.methodName = none := by
  cases p <;> first | rfl | simp [isConstant] at h

theorem typeName_eq_none (h : p.isType = false) : p.typeName = none := by
  cases p <;> first | rfl | simp [isType] at h

theorem implementing_eq_none (iface : String) (h : p.isType = false) :
    p.implementing iface = none := by
  cases p <;> first | rfl | simp [isType] at h

theorem Is.typeName_eq (h : p.Is ctx d) : d.typeName = p.typeName := by
  cases h <;> rfl

theorem Is.methodName_eq (h : p.Is ctx d) : d.methodName = p.methodName := by
  cases h <;> rfl

theorem Is.variableName_eq (h : p.Is ctx d) : d.variableName = p.variableName := by
  cases h with
  | constant type hc => exact hc.symm
  | _ => rfl

theorem Is.implementing_eq (iface : String) (h : p.Is ctx d) :
    d.implementing iface = p.implementing iface := by
  cases h <;> rfl

section Forall₂

variable {parts : List Part} {ds : Program} (h : List.Forall₂ (Part.Is ctx) parts ds)
  {key : Decl → Option String} {key' : Part → Option String}
  (hkey : ∀ {p d}, Is ctx p d → key d = key' p)

include h hkey

theorem filterMap_eq : ds.filterMap key = parts.filterMap key' := by
  induction h with
  | nil => rfl
  | cons h _ ih => rw [List.filterMap_cons, List.filterMap_cons, hkey h, ih]

/-- A part is what its name means where the name is there once. -/
theorem named (hp : p ∈ parts) {x : String} (hx : key' p = some x)
    (hc : (parts.filterMap key').count x = 1) : ∃ d, ds.named key x = some d ∧ p.Is ctx d := by
  obtain ⟨d, hd, his⟩ := forall₂_exists h hp
  exact ⟨d, only_filter hd ((hkey his).trans hx) (filterMap_eq h hkey ▸ hc), his⟩

end Forall₂

end Part

section Parts

variable (key : Part → Option String) (u : Union)

theorem filterMap_unionParts : (itemParts (.union u)).filterMap key =
    (key (.caseEnum u)).toList ++ (key (.iface u)).toList ++
      (u.variants.flatMap fun v => (key (.wrapper u v)).toList) ++ (key (.holder u)).toList := by
  simp [itemParts, List.filterMap_eq_flatMap_toList, List.flatMap_map]

theorem filterMap_accessorParts : (accessorParts u).filterMap key =
    (key (.caseGetter u)).toList ++
      u.variants.flatMap fun v => (key (.setter u v)).toList ++ (key (.getter u v)).toList := by
  simp [accessorParts, List.filterMap_eq_flatMap_toList, List.flatMap_assoc]

/-- What is listed of all parts but constants. -/
theorem filterMap_memberParts (hkey : ∀ p : Part, p.isConstant → key p = none) (s : Shape)
    (extensions : List Extension) : (memberParts s extensions).filterMap key =
      (s.items.flatMap itemParts).filterMap key ++
        (s.unions.reduceOption.flatMap accessorParts).filterMap key ++ (key .shown).toList := by
  have hnumbers : (s.members.map Part.number).filterMap key = [] := by
    rw [List.filterMap_map, List.filterMap_eq_nil_iff]
    exact fun m _ => hkey (.number m) rfl
  have hdefaults : (s.members.flatMap constantParts).filterMap key = [] := by
    rw [List.filterMap_flatMap, List.flatMap_eq_nil_iff]
    intro m _
    rw [constantParts]
    split
    · rw [List.filterMap_cons_none (hkey (.constant m) rfl), List.filterMap_nil]
    · rfl
  have hextensions : (extensions.flatMap extensionParts).filterMap key = [] := by
    rw [List.filterMap_flatMap, List.flatMap_eq_nil_iff]
    intro x _
    rw [extensionParts, List.filterMap_cons_none (hkey (.extensionNumber x) rfl),
      List.filterMap_cons_none (hkey (.extendee x) rfl), List.filterMap_nil]
  have hshown : [Part.shown].filterMap key = (key .shown).toList := by
    cases h : key .shown <;> simp [h]
  simp only [memberParts, List.filterMap_append, hnumbers, hdefaults, hextensions, hshown,
    List.append_nil]

end Parts

section Names

variable {c : Scope} {s : Shape} {m : Message} {n : MessageNames} (hm : m.Numbered)
  (hs : s.Resolved c m n) (hn : n.Fits m)

include hm hs hn

/-- What is listed of the items of a message is what is listed of its fields that are in no union
and of its unions with members. -/
theorem items_flatMap_perm {β : Type}
    (hx : ∀ f ∈ m.fields, m.union? f ≠ none → f.extendee = none) (g : Item → List β) :
    (s.items.flatMap g).Perm
      (((m.fields.filter fun f => (m.union? f).isNone).flatMap fun f => g (.field (s.member f))) ++
        (inhabitedUnions m).flatMap fun o => g (.union (s.union o))) := by
  have hitem : ∀ f ∈ m.fields, s.item? (s.member f) =
      if (m.union? f).isNone then some (.field (s.member f))
        else (firstOf? m f).map fun o => .union (s.union o) := by
    intro f hf
    rw [item?_eq_ite hm hs hn hf]
    cases hu : m.union? f with
    | none => rfl
    | some o => simp [hx f hf (by simp [hu])]
  have hitems := (items_perm_of hs.fits hitem).flatMap_right g
  rw [filterMap_firstOf?, List.flatMap_append, List.flatMap_map, List.flatMap_map] at hitems
  exact hitems.trans (((firstOf_perm_inhabited hm).flatMap_right _).append_left _)

omit hm hn in
theorem unions_eq : s.unions.reduceOption = (m.oneofs.filter (!·.synthetic)).map s.union := by
  rw [hs.fits.unions, Naming.reduceOption_map_ite]

/-- Constants are named as planned. -/
theorem constants_sublist {extensions : List Extension}
    (hxs : (extensions.map (·.names)).Sublist n.extensions) :
    ((s.members.map Part.number ++ s.members.flatMap constantParts ++
      extensions.flatMap extensionParts).filterMap Part.variableName).Sublist
      (n.fields.map (·.numberConst) ++ n.fields.filterMap (·.defaultConst) ++
        n.extensions.flatMap fun x => [x.numberConst, x.extendeeConst]) := by
  have hnumbers : (s.members.map Part.number).filterMap Part.variableName =
      n.fields.map (·.numberConst) := by
    rw [hs.fits.members, hn.fields_eq hm]
    simp only [List.map_map, List.filterMap_map]
    rw [← List.filterMap_eq_map]
    apply List.filterMap_congr
    intro f hf
    simp [Part.variableName, hs.fits.memberNames f hf]
  have hdefault : ∀ member : Member, ((constantParts member).filterMap
      Part.variableName).Sublist member.names.defaultConst.toList := by
    intro member
    rw [constantParts]
    split
    · cases hc : member.names.defaultConst <;> simp [Part.variableName, hc]
    · simp
  have hdefaults : ((s.members.flatMap constantParts).filterMap Part.variableName).Sublist
      (n.fields.filterMap (·.defaultConst)) := by
    rw [hs.fits.members, hn.fields_eq hm, List.flatMap_map, List.filterMap_flatMap,
      List.filterMap_map, List.filterMap_eq_flatMap_toList]
    refine List.Sublist.flatMap_right _ fun f hf => ?_
    rw [Function.comp_apply, ← hs.fits.memberNames f hf]
    exact hdefault (s.member f)
  have hextensions : (extensions.flatMap extensionParts).filterMap Part.variableName =
      (extensions.map (·.names)).flatMap fun x => [x.numberConst, x.extendeeConst] := by
    rw [List.filterMap_flatMap, List.flatMap_map]
    rfl
  rw [List.filterMap_append, List.filterMap_append, hnumbers, hextensions]
  exact (hdefaults.append_left _).append (hxs.flatMap _)

/-- The names of fields and constants are among those in the plan of the message. -/
theorem variableNames_subperm (hx : ∀ f ∈ m.fields, m.union? f ≠ none → f.extendee = none)
    {extensions : List Extension} (hxs : (extensions.map (·.names)).Sublist n.extensions) :
    ((memberParts s extensions).filterMap Part.variableName).Subperm (n.identifiers m) := by
  have hunion : ∀ u, (itemParts (.union u)).filterMap Part.variableName = [u.names.field] := by
    simp [filterMap_unionParts, Part.variableName]
  have hitems : ((s.items.flatMap itemParts).filterMap Part.variableName).Perm
      (((m.fields.filter fun f => (m.union? f).isNone).map fun f => (n.field f).field) ++
        (inhabitedUnions m).map fun o => (n.union o).field) := by
    rw [List.filterMap_flatMap]
    refine (items_flatMap_perm hm hs hn hx _).trans (.of_eq ?_)
    simp only [hunion, List.map_eq_flatMap]
    congr 1
    · apply List.flatMap_congr
      intro f hf
      rw [← hs.fits.memberNames f (List.mem_of_mem_filter hf)]
      rfl
    · apply List.flatMap_congr
      intro o ho
      obtain ⟨ho, hreal, -⟩ := Naming.mem_inhabitedUnions_iff.mp ho
      rw [hs.fits.unionNames o ho hreal]
  have haccessors : (s.unions.reduceOption.flatMap accessorParts).filterMap Part.variableName =
      [] := by
    simp [List.filterMap_flatMap, filterMap_accessorParts, Part.variableName]
  have hunions : ((inhabitedUnions m).map fun o => (n.union o).field).Sublist
      ((inhabitedUnions m).flatMap fun o => (n.union o).identifiers) := by
    rw [List.map_eq_flatMap]
    exact List.Sublist.flatMap_right _ fun o _ => List.singleton_sublist.mpr List.mem_cons_self
  have hshown : [Part.shown].filterMap Part.variableName = [] := rfl
  have hconstants := (constants_sublist hm hs hn hxs).subperm
  have hall := (hitems.subperm.trans (hunions.append_left _).subperm).append hconstants
  rw [memberParts, hn.identifiers_eq hm]
  simpa only [List.filterMap_append, haccessors, hshown, List.append_nil, List.append_assoc]
    using hall

theorem variants_names {o : Oneof} (ho : o ∈ m.oneofs) (hreal : o.synthetic = false) :
    (s.union o).variants.map (·.names) = (n.union o).variants := by
  rw [hs.variants o ho hreal, hn.variants_eq hm ho hreal, List.map_map]
  rfl

theorem methodNames_eq {o : Oneof} (ho : o ∈ m.oneofs) (hreal : o.synthetic = false) :
    (accessorParts (s.union o)).filterMap Part.methodName = (n.union o).methods := by
  rw [filterMap_accessorParts, UnionNames.methods, ← variants_names hm hs hn ho hreal,
    List.flatMap_map, ← hs.fits.unionNames o ho hreal]
  rfl

/-- What is listed of the types in the class of a message is what is listed of its unions. -/
theorem filterMap_types_perm (hx : ∀ f ∈ m.fields, m.union? f ≠ none → f.extendee = none)
    {key : Part → Option String} (hkey : ∀ p : Part, p.isType = false → key p = none)
    (extensions : List Extension) : ((memberParts s extensions).filterMap key).Perm
      ((inhabitedUnions m).flatMap fun o => (itemParts (.union (s.union o))).filterMap key) := by
  have hconstant : ∀ p : Part, p.isConstant → key p = none :=
    fun p hp => hkey p (Part.isType_of_isConstant hp)
  have haccessors : (s.unions.reduceOption.flatMap accessorParts).filterMap key = [] := by
    rw [List.filterMap_flatMap, List.flatMap_eq_nil_iff]
    intro u _
    simp [filterMap_accessorParts, hkey (.caseGetter u) rfl, hkey (.setter u _) rfl,
      hkey (.getter u _) rfl]
  have hplain : ((m.fields.filter fun f => (m.union? f).isNone).flatMap fun f =>
      (itemParts (.field (s.member f))).filterMap key) = [] := by
    simp [itemParts, hkey (.field _) rfl]
  have hitems := items_flatMap_perm hm hs hn hx fun item => (itemParts item).filterMap key
  rw [hplain, List.nil_append, ← List.filterMap_flatMap] at hitems
  rw [filterMap_memberParts _ hconstant, haccessors, hkey .shown rfl, Option.toList_none,
    List.append_nil, List.append_nil]
  exact hitems

/-- The names of the types of unions are among those in the plan of the message. -/
theorem typeNames_subperm (hx : ∀ f ∈ m.fields, m.union? f ≠ none → f.extendee = none)
    (extensions : List Extension) : ((memberParts s extensions).filterMap Part.typeName).Subperm
      (n.unions.reduceOption.flatMap unionClassNames) := by
  have hunion : ∀ o ∈ inhabitedUnions m, ((itemParts (.union (s.union o))).filterMap
      Part.typeName).Perm (unionClassNames (n.union o)) := by
    intro o ho
    obtain ⟨ho, hreal, -⟩ := Naming.mem_inhabitedUnions_iff.mp ho
    have hnames : (itemParts (.union (s.union o))).filterMap Part.typeName =
        (s.union o).names.caseEnum :: (s.union o).names.iface ::
          ((s.union o).variants.map (·.names)).map (·.wrapper) := by
      simp [filterMap_unionParts, Part.typeName, ← List.map_eq_flatMap]
    rw [hnames, hs.fits.unionNames o ho hreal, variants_names hm hs hn ho hreal]
    exact .swap _ _ _
  have hperm := (filterMap_types_perm hm hs hn hx (fun _ => Part.typeName_eq_none) extensions).trans
    (.flatMap_left _ hunion)
  have hreal : (inhabitedUnions m).Sublist (m.oneofs.filter (!·.synthetic)) :=
    List.monotone_filter_right _ fun o => by simp +contextual
  rw [hn.unions, Naming.reduceOption_map_ite, List.flatMap_map]
  exact hperm.subperm.trans (hreal.flatMap _).subperm

/-- The classes that implement the interface of a union are those of its members. -/
theorem implementing_perm (hx : ∀ f ∈ m.fields, m.union? f ≠ none → f.extendee = none)
    (hd : (n.unions.reduceOption.flatMap unionClassNames).Nodup) {o : Oneof}
    (ho : o ∈ inhabitedUnions m) (extensions : List Extension) :
    ((memberParts s extensions).filterMap (Part.implementing (n.union o).iface)).Perm
      ((n.union o).variants.map (·.wrapper)) := by
  let wrappers (o' : Oneof) : List String :=
    if (n.union o').iface = (n.union o).iface then (n.union o').variants.map (·.wrapper) else []
  have hunion : ∀ o' ∈ inhabitedUnions m, (itemParts (.union (s.union o'))).filterMap
      (Part.implementing (n.union o).iface) = wrappers o' := by
    intro o' ho'
    obtain ⟨ho', hreal, -⟩ := Naming.mem_inhabitedUnions_iff.mp ho'
    have hnames : (itemParts (.union (s.union o'))).filterMap
        (Part.implementing (n.union o).iface) =
          if (s.union o').names.iface = (n.union o).iface then
            ((s.union o').variants.map (·.names)).map (·.wrapper)
          else [] := by
      rw [filterMap_unionParts]
      by_cases hiface : (s.union o').names.iface = (n.union o).iface <;>
        simp [Part.implementing, hiface, ← List.map_eq_flatMap]
    rw [hnames, hs.fits.unionNames o' ho' hreal, variants_names hm hs hn ho' hreal]
  have hnodup : (inhabitedUnions m).Nodup :=
    (List.Nodup.of_map _ (hm.oneofs ▸ List.nodup_range)).filter _
  -- The interface tells the union, as no two classes have one name.
  have hother : ∀ o' ∈ inhabitedUnions m, o' ≠ o → wrappers o' = [] := by
    intro o' ho' hne
    apply if_neg
    intro he
    rw [hn.unions, Naming.reduceOption_map_ite, List.flatMap_map] at hd
    have hreal : ∀ o ∈ inhabitedUnions m, o ∈ m.oneofs.filter (!·.synthetic) := by
      intro o ho
      obtain ⟨ho, hreal, -⟩ := Naming.mem_inhabitedUnions_iff.mp ho
      simp [ho, hreal]
    have hiface : (n.union o).iface ∈ unionClassNames (n.union o') := he ▸ List.mem_cons_self
    exact hne (eq_of_mem_flatMap hd (hreal o' ho') (hreal o ho) hiface List.mem_cons_self)
  have hperm := filterMap_types_perm hm hs hn hx
    (fun _ => Part.implementing_eq_none (n.union o).iface) extensions
  rw [List.flatMap_congr hunion, flatMap_eq_of_mem hnodup ho hother] at hperm
  exact hperm.trans (.of_eq (if_pos rfl))

/-- The methods among the parts of a class are those of its unions, then the one that shows it. -/
theorem filterMap_methodName (extensions : List Extension) :
    (memberParts s extensions).filterMap Part.methodName =
      ((m.oneofs.filter (!·.synthetic)).flatMap fun o => (n.union o).methods) ++ ["toString"] := by
  have hunions : (s.unions.reduceOption.flatMap accessorParts).filterMap Part.methodName =
      (m.oneofs.filter (!·.synthetic)).flatMap fun o => (n.union o).methods := by
    rw [unions_eq hs, List.flatMap_map, List.filterMap_flatMap]
    apply List.flatMap_congr
    intro o ho
    obtain ⟨ho, hreal⟩ := List.mem_filter.mp ho
    exact methodNames_eq hm hs hn ho (by simpa using hreal)
  have hitems : (s.items.flatMap itemParts).filterMap Part.methodName = [] := by
    rw [List.filterMap_flatMap, List.flatMap_eq_nil_iff]
    rintro (member | u) _
    · rfl
    · simp [filterMap_unionParts, Part.methodName]
  rw [filterMap_memberParts _ fun _ => Part.methodName_of_isConstant, hitems, hunions,
    List.nil_append]
  rfl

omit hs in
theorem methods_subperm : ((inhabitedUnions m).flatMap fun o => (n.union o).methods).Subperm
    (n.identifiers m) := by
  have hsublist : ((inhabitedUnions m).flatMap fun o => (n.union o).methods).Sublist
      ((inhabitedUnions m).flatMap fun o => (n.union o).identifiers) :=
    List.Sublist.flatMap_right _ fun o _ => List.sublist_cons_self _ _
  rw [hn.identifiers_eq hm]
  refine hsublist.subperm.trans (List.Sublist.subperm ?_)
  simp only [List.append_assoc]
  exact (List.sublist_append_left _ _).trans (List.sublist_append_right _ _)

/-- A name of a method of a union with members is that of one method. -/
theorem count_methodNames (hc : n.Scoped m) {o : Oneof} (ho : o ∈ inhabitedUnions m) {x : String}
    (hmem : x ∈ (n.union o).methods) (extensions : List Extension) :
    ((memberParts s extensions).filterMap Part.methodName).count x = 1 := by
  obtain ⟨ho', hreal, hne⟩ := Naming.mem_inhabitedUnions_iff.mp ho
  have hempty : x ≠ "" := fun he => hne ((hc.methods o ho' hreal x hmem).mp he)
  -- Unions without members have a getter without a name.
  have hinhabited : ((m.oneofs.filter (!·.synthetic)).flatMap fun o => (n.union o).methods).count
      x = ((inhabitedUnions m).flatMap fun o => (n.union o).methods).count x := by
    rw [count_flatMap_filter _ _ fun o => !(unionMembers m o).isEmpty, List.filter_filter]
    · simp only [inhabitedUnions, Bool.and_comm]
    · intro o' ho' hp hx
      obtain ⟨ho', hreal'⟩ := List.mem_filter.mp ho'
      have hnone : unionMembers m o' = [] := by simpa using hp
      exact hempty ((hc.methods o' ho' (by simpa using hreal') x hx).mpr hnone)
  have hidentifiers := methods_subperm hm hn
  have hin : x ∈ (inhabitedUnions m).flatMap fun o => (n.union o).methods :=
    List.mem_flatMap.mpr ⟨o, ho, hmem⟩
  have hshown : x ≠ "toString" := by
    rintro rfl
    exact (hc.identifiers.2 _ (hidentifiers.subset hin)).1 (by decide)
  rw [filterMap_methodName hm hs hn, List.count_append, hinhabited,
    count_eq_one_of_subperm hidentifiers hc.identifiers.1 hin]
  simp [hshown.symm]

end Names

end ProtoJava.Bean
