import Mathlib.Data.List.Forall2
import ProtoJava.Mapping.Shape
import ProtoJava.Proofs.Naming.Allocated
import ProtoJava.Proofs.Outcome

/-! # Shapes of messages

The members of a shape are the fields of its message in order, each with its names and with a kind
that tells members of unions and extensions from other fields.
-/

namespace ProtoJava.Mapping

open Schema (Message Field Oneof MessageId)
open Naming (MessageNames unionMembers)

theorem mem_of_mem_zipWith {α β γ : Type} {f : α → β → γ} {l : List α} {l' : List β} {x : γ}
    (h : x ∈ List.zipWith f l l') : ∃ a ∈ l, ∃ b ∈ l', f a b = x := by
  rw [← List.map_uncurry_zip_eq_zipWith, List.mem_map] at h
  obtain ⟨⟨a, b⟩, hab, rfl⟩ := h
  obtain ⟨ha, hb⟩ := List.of_mem_zip hab
  exact ⟨a, ha, b, hb, rfl⟩

/-- An item is a member or a union of its shape. -/
theorem Shape.items_cases {s : Shape} {item : Item} (h : item ∈ s.items) :
    (∃ m ∈ s.members, item = .field m) ∨ ∃ u, some u ∈ s.unions ∧ item = .union u := by
  obtain ⟨m, hm, h⟩ := List.mem_filterMap.mp h
  unfold Shape.item? at h
  split at h
  · split at h
    · next u hu =>
      obtain ⟨-, h⟩ := Option.ite_none_right_eq_some.mp h
      exact Or.inr ⟨u, List.mem_of_getElem? (Option.join_eq_some_iff.mp hu),
        (Option.some.inj h).symm⟩
    · exact nomatch h
  · exact Or.inl ⟨m, hm, (Option.some.inj h).symm⟩

/-- The union that a kind names. -/
def Kind.oneof? : Kind → Option Nat
  | .variant oneof _ => some oneof
  | _ => none

def Kind.isExtension : Kind → Bool
  | .extension _ _ _ => true
  | _ => false

section Classify

variable {s : Scope} {m : Option Message} {f : Field} {p : Property}

theorem classify_ok (h : s.classify m f = .ok p) :
    ∃ v, s.value f = .ok v ∧ s.kind m f v = .ok p.kind ∧ s.default f v = .ok p.default ∧
      p.field = f := by
  simp only [Scope.classify, bind_eq_ok_iff, pure_eq_ok_iff] at h
  obtain ⟨v, hv, kind, hk, default, hd, rfl⟩ := h
  exact ⟨v, hv, hk, hd, rfl⟩

theorem plainKind_ok {repeated : Bool} {v : Value} {k : Kind}
    (h : s.plainKind repeated v = .ok k) : k.oneof? = none ∧ k.isExtension = false := by
  cases v with
  | scalar v =>
    obtain rfl := Except.ok.inj h
    exact ⟨rfl, rfl⟩
  | enum id =>
    obtain rfl := Except.ok.inj h
    exact ⟨rfl, rfl⟩
  | message id =>
    rw [Scope.plainKind] at h
    split at h
    · rw [Scope.mapOf] at h
      split at h
      · obtain ⟨v, -, rfl⟩ := map_eq_ok_iff.mp h
        exact ⟨rfl, rfl⟩
      · simp at h
    · obtain rfl := Except.ok.inj h
      exact ⟨rfl, rfl⟩

/-- A field that extends nothing is a member of the union it is declared in. -/
theorem oneof?_of_classify (h : s.classify m f = .ok p) (hx : f.extendee = none) :
    p.kind.oneof? = (m.bind (·.union? f)).map (·.index) ∧ p.kind.isExtension = false := by
  obtain ⟨v, -, hk, -, -⟩ := classify_ok h
  rw [Scope.kind, hx] at hk
  cases hu : m.bind (·.union? f) with
  | none =>
    rw [hu] at hk
    exact plainKind_ok hk
  | some o =>
    rw [hu] at hk
    rw [← Except.ok.inj hk]
    exact ⟨rfl, rfl⟩

theorem isExtension_of_classify (h : s.classify m f = .ok p) (hx : f.extendee ≠ none) :
    p.kind.isExtension := by
  obtain ⟨v, -, hk, -, -⟩ := classify_ok h
  obtain ⟨extendee, hx⟩ := Option.ne_none_iff_exists'.mp hx
  rw [Scope.kind, hx] at hk
  obtain ⟨id, -, hk⟩ := map_eq_ok_iff.mp hk
  rw [← hk]
  rfl

/-- What a member of a union becomes. -/
theorem variant_of_classify {m : Message} {o : Oneof} (h : s.classify (some m) f = .ok p)
    (hx : f.extendee = none) (hu : m.union? f = some o) :
    ∃ v, s.value f = .ok v ∧ p.kind = .variant o.index v := by
  obtain ⟨v, hv, hk, -⟩ := classify_ok h
  rw [Scope.kind, hx, Option.bind_some, hu, Except.ok.injEq] at hk
  exact ⟨v, hv, hk.symm⟩

theorem isMessage_of_value {id : MessageId} (h : s.value f = .ok (.message id)) :
    f.type.isMessage := by
  rw [Scope.value] at h
  split at h
  · simp at h
  · split at h
    · assumption
    · obtain ⟨_, -, h⟩ := map_eq_ok_iff.mp h
      simp at h

/-- A field has a default just if it is given a constant for it, messages apart. -/
theorem default_isSome {v : Value} {d : Option Default} (hv : s.value f = .ok v)
    (h : s.default f v = .ok d)
    (hm : f.type.isMessage → Naming.hasDefaultConst f = false) :
    d.isSome = Naming.hasDefaultConst f := by
  rw [Scope.default] at h
  split at h
  · next hnone =>
    obtain rfl := Except.ok.inj h
    cases hr : f.isRepeated <;> simp_all [Naming.hasDefaultConst]
  · next text hsome =>
    have hconst : Naming.hasDefaultConst f := by
      cases hr : f.isRepeated <;> simp_all [Naming.hasDefaultConst]
    cases v with
    | message id => simp [hm (isMessage_of_value hv)] at hconst
    | scalar scalar =>
      obtain rfl := Except.ok.inj h
      rw [hconst, Option.isSome_some]
    | enum id =>
      dsimp only at h
      split at h
      · obtain rfl := Except.ok.inj h
        rw [hconst, Option.isSome_some]
      · simp at h

end Classify

/-- The member of a shape that a field becomes. -/
def Shape.member (s : Shape) (f : Field) : Member :=
  s.members.getD f.index default

/-- The union of a shape that a oneof becomes. -/
def Shape.union (s : Shape) (o : Oneof) : Union :=
  (s.unions.getD o.index none).getD default

/-- A shape that has a member for every field and a union for every oneof that is one. -/
structure Shape.Fits (s : Shape) (m : Message) (n : MessageNames) : Prop where
  message : s.message = m
  names : s.names = n
  members : s.members = m.fields.map s.member
  field : ∀ f ∈ m.fields, (s.member f).property.field = f
  memberNames : ∀ f ∈ m.fields, (s.member f).names = n.field f
  kind : ∀ f ∈ m.fields, f.extendee = none →
    (s.member f).property.kind.oneof? = (m.union? f).map (·.index) ∧
      (s.member f).property.kind.isExtension = false
  unions : s.unions = m.oneofs.map fun o => if o.synthetic then none else some (s.union o)
  oneof : ∀ o ∈ m.oneofs, o.synthetic = false → (s.union o).oneof = o
  unionNames : ∀ o ∈ m.oneofs, o.synthetic = false → (s.union o).names = n.union o
  variants : ∀ o ∈ m.oneofs, o.synthetic = false →
    (s.union o).variants.map (·.member) = (unionMembers m o).map s.member

/-- A shape that fits, with what the fields of its message are resolved to. -/
structure Shape.Resolved (s : Shape) (c : Scope) (m : Message) (n : MessageNames) : Prop where
  fits : s.Fits m n
  property : ∀ f ∈ m.fields, c.classify (some m) f = .ok (s.member f).property
  variants : ∀ o ∈ m.oneofs, o.synthetic = false →
    (s.union o).variants = (unionMembers m o).map fun f => ⟨(n.union o).variant f, s.member f⟩

/-- The shape of a message is read off the properties of its fields. -/
theorem Shape.of_eq_ok_iff {ctx : Context} {id : MessageId} {s : Shape} :
    Shape.of ctx id = .ok s ↔
      ∃ ps, List.Forall₂ (fun f p => ctx.classify (some (ctx.graph.message id)) f = .ok p)
          (ctx.graph.message id).fields ps ∧
        Shape.ofProperties (ctx.graph.message id) (ctx.names.message id) ps = s := by
  simp only [Shape.of, bind_eq_ok_iff, pure_eq_ok_iff, mapM_eq_ok_iff]

theorem Shape.of_message {ctx : Context} {id : MessageId} {s : Shape}
    (h : Shape.of ctx id = .ok s) : s.message = ctx.graph.message id := by
  obtain ⟨ps, -, rfl⟩ := Shape.of_eq_ok_iff.mp h
  rfl

theorem Shape.of_names {ctx : Context} {id : MessageId} {s : Shape}
    (h : Shape.of ctx id = .ok s) : s.names = ctx.names.message id := by
  obtain ⟨ps, -, rfl⟩ := Shape.of_eq_ok_iff.mp h
  rfl

section Shapes

variable {m : Message} {n : MessageNames} {ps : List Property}

/-- The members of a shape are the properties of the fields of its message, with their names. -/
theorem Shape.ofProperties_member {s : Scope} (hm : m.Numbered) (hn : n.Fits m)
    (hp : List.Forall₂ (fun f p => s.classify (some m) f = .ok p) m.fields ps) {f : Field}
    (hf : f ∈ m.fields) :
    (Shape.ofProperties m n ps).members[f.index]? = some ((Shape.ofProperties m n ps).member f) ∧
      s.classify (some m) f = .ok ((Shape.ofProperties m n ps).member f).property ∧
      ((Shape.ofProperties m n ps).member f).names = n.field f := by
  obtain ⟨hk, hf'⟩ := List.getElem?_eq_some_iff.mp (Schema.getElem?_index hm.fields hf)
  have hkp : f.index < ps.length := hp.length_eq ▸ hk
  have hkn : f.index < n.fields.length := hn.fields ▸ hk
  have hget : (Shape.ofProperties m n ps).members[f.index]? = some ⟨ps[f.index], n.field f⟩ := by
    have hnames : n.fields[f.index]? = some (n.field f) := by simp [MessageNames.field, hkn]
    exact List.getElem?_zipWith_eq_some.mpr ⟨_, _, List.getElem?_eq_getElem hkp, hnames, rfl⟩
  have hmember : (Shape.ofProperties m n ps).member f = ⟨ps[f.index], n.field f⟩ := by
    simp [Shape.member, hget]
  rw [hmember]
  refine ⟨hget, ?_, rfl⟩
  have := hp.get hk hkp
  simpa [hf'] using this

theorem Shape.ofProperties_union (hm : m.Numbered) (hn : n.Fits m) (ps : List Property) {o : Oneof}
    (ho : o ∈ m.oneofs) (hs : o.synthetic = false) :
    (Shape.ofProperties m n ps).union o =
      Union.of (Shape.ofProperties m n ps).members o (n.union o) := by
  have hu : n.unions[o.index]? = some (some (n.union o)) := by
    rw [hn.unions, List.getElem?_map, Schema.getElem?_index hm.oneofs ho]
    simp [hs]
  simp only [Shape.union, List.getD_eq_getElem?_getD, Shape.ofProperties, List.getElem?_zipWith,
    Schema.getElem?_index hm.oneofs ho, hu]
  rfl

/-- A union of a shape has its members in order. -/
theorem Shape.ofProperties_variants {s : Scope} (hm : m.Numbered) (hn : n.Fits m)
    (hp : List.Forall₂ (fun f p => s.classify (some m) f = .ok p) m.fields ps) {o : Oneof}
    (ho : o ∈ m.oneofs) (hs : o.synthetic = false) :
    ((Shape.ofProperties m n ps).union o).variants = (unionMembers m o).map fun f =>
      ⟨(n.union o).variant f, (Shape.ofProperties m n ps).member f⟩ := by
  have hindex := hn.variants o ho hs
  rw [hn.variants_eq hm ho hs, List.map_map, List.map_inj_left] at hindex
  rw [Shape.ofProperties_union hm hn ps ho hs, Union.of, hn.variants_eq hm ho hs,
    List.filterMap_map, ← List.filterMap_eq_map]
  refine List.filterMap_congr fun f hf => ?_
  have hmember := (Shape.ofProperties_member hm hn hp (List.mem_of_mem_filter hf)).1
  have hf' : ((n.union o).variant f).fieldIndex = f.index := hindex f hf
  simp only [Function.comp_apply, hf', hmember, Option.map_some]

/-- A shape is read off the properties of the fields of its message. -/
theorem Shape.ofProperties_fits {s : Scope} (hm : m.Numbered) (hn : n.Fits m)
    (hp : List.Forall₂ (fun f p => s.classify (some m) f = .ok p) m.fields ps) :
    (Shape.ofProperties m n ps).Fits m n := by
  let s' := Shape.ofProperties m n ps
  have hlen : s'.members.length = m.fields.length := by
    simp [s', Shape.ofProperties, hn.fields, ← hp.length_eq]
  have hmember := fun f hf => Shape.ofProperties_member (f := f) hm hn hp hf
  have hunion := fun o ho hs => Shape.ofProperties_union (o := o) hm hn ps ho hs
  constructor
  case message => rfl
  case names => rfl
  case members => exact Schema.eq_map_of_index hm.fields hlen fun f hf => (hmember f hf).1
  case field =>
    intro f hf
    obtain ⟨v, -, -, -, h⟩ := classify_ok (hmember f hf).2.1
    exact h
  case memberNames => exact fun f hf => (hmember f hf).2.2
  case kind => exact fun f hf hx => oneof?_of_classify (hmember f hf).2.1 hx
  case unions =>
    refine Schema.eq_map_of_index hm.oneofs (by simp [Shape.ofProperties, hn.unions]) ?_
    intro o ho
    have hu : n.unions[o.index]? = some (if o.synthetic then none else some (n.union o)) := by
      rw [hn.unions, List.getElem?_map, Schema.getElem?_index hm.oneofs ho]
      rfl
    by_cases hs : o.synthetic
    · simp [Shape.ofProperties, List.getElem?_zipWith, Schema.getElem?_index hm.oneofs ho, hu, hs]
    · have hs' : o.synthetic = false := by simpa using hs
      rw [show (Shape.ofProperties m n ps).union o = _ from hunion o ho hs']
      simp [Shape.ofProperties, List.getElem?_zipWith, Schema.getElem?_index hm.oneofs ho, hu,
        hs]
  case oneof =>
    intro o ho hs
    exact (congrArg Union.oneof (hunion o ho hs)).trans rfl
  case unionNames =>
    intro o ho hs
    exact (congrArg Union.names (hunion o ho hs)).trans rfl
  case variants =>
    intro o ho hs
    simp [Shape.ofProperties_variants hm hn hp ho hs]

theorem Shape.of_resolved {ctx : Context} {id : MessageId} {s : Shape}
    (h : Shape.of ctx id = .ok s) (hm : (ctx.graph.message id).Numbered)
    (hn : (ctx.names.message id).Fits (ctx.graph.message id)) :
    s.Resolved ctx.toScope (ctx.graph.message id) (ctx.names.message id) := by
  obtain ⟨ps, hp, rfl⟩ := Shape.of_eq_ok_iff.mp h
  refine ⟨Shape.ofProperties_fits hm hn hp, ?_, ?_⟩
  · exact fun f hf => (Shape.ofProperties_member hm hn hp hf).2.1
  · exact fun o ho hs => Shape.ofProperties_variants hm hn hp ho hs

/-- The shape of a message fits the message and its names. -/
theorem Shape.of_ok {ctx : Context} {id : MessageId} {s : Shape} (h : Shape.of ctx id = .ok s)
    (hm : (ctx.graph.message id).Numbered)
    (hn : (ctx.names.message id).Fits (ctx.graph.message id)) :
    s.Fits (ctx.graph.message id) (ctx.names.message id) :=
  (Shape.of_resolved h hm hn).fits

end Shapes

end ProtoJava.Mapping
