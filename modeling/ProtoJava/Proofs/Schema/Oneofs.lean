import ProtoJava.Proofs.Schema.Arena

/-! # Oneofs and the fields that name them

A field names its oneof by position. A position that is negative or past the last oneof names
none, and the oneofs of a schema have exactly the fields that name them in the descriptor.
-/

namespace ProtoJava

namespace Descriptor.Message

/-- The positions of the fields that name oneof `k`, ascending. -/
def namers (raw : Descriptor.Message) (k : Nat) : List Nat :=
  (List.range raw.fields.length).filter fun j => raw.fields[j]?.any (·.oneofIndex = some (k : Int))

/-- Fields name oneof `k`, and all of them have explicit presence. -/
def Synthetic (raw : Descriptor.Message) (k : Nat) : Prop :=
  raw.namers k ≠ [] ∧ ∀ r ∈ raw.fields, r.oneofIndex = some (k : Int) → r.proto3Optional

instance (raw : Descriptor.Message) (k : Nat) : Decidable (raw.Synthetic k) :=
  inferInstanceAs (Decidable (_ ∧ _))

theorem mem_namers_iff {raw : Descriptor.Message} {k j : Nat} :
    j ∈ raw.namers k ↔ ∃ r, raw.fields[j]? = some r ∧ r.oneofIndex = some (k : Int) := by
  simp only [namers, List.mem_filter, List.mem_range, Option.any_eq_true, decide_eq_true_eq]
  exact and_iff_right_of_imp fun ⟨r, hr, _⟩ => (List.getElem?_eq_some_iff.mp hr).1

theorem namers_nodup (raw : Descriptor.Message) (k : Nat) : (raw.namers k).Nodup :=
  List.nodup_range.sublist List.filter_sublist

/-- The positions of the fields that name a oneof which is no synthetic one, oneof by oneof. -/
def unionNamers (raw : Descriptor.Message) : List Nat :=
  ((List.range raw.oneofs.length).filter fun k => ¬ raw.Synthetic k).flatMap raw.namers

/-- A field names one oneof, so its position is listed once. -/
theorem unionNamers_nodup (raw : Descriptor.Message) : raw.unionNamers.Nodup := by
  refine List.nodup_flatMap.mpr ⟨fun k _ => raw.namers_nodup k, ?_⟩
  refine (List.nodup_range.sublist List.filter_sublist).imp fun hne j hj hj' => hne ?_
  obtain ⟨r, hr, hk⟩ := mem_namers_iff.mp hj
  obtain ⟨r', hr', hk'⟩ := mem_namers_iff.mp hj'
  obtain rfl := Option.some.inj (hr.symm.trans hr')
  exact Int.ofNat.inj (Option.some.inj (hk.symm.trans hk'))

theorem mem_unionNamers_iff {raw : Descriptor.Message} {j : Nat} :
    j ∈ raw.unionNamers ↔ ∃ r, ∃ k : Nat, raw.fields[j]? = some r ∧
      r.oneofIndex = some (k : Int) ∧ k < raw.oneofs.length ∧ ¬ raw.Synthetic k := by
  simp only [unionNamers, List.mem_flatMap, List.mem_filter, List.mem_range, mem_namers_iff,
    decide_eq_true_eq]
  exact ⟨fun ⟨k, ⟨hk, hs⟩, r, hr, hi⟩ => ⟨r, k, hr, hi, hk, hs⟩,
    fun ⟨r, k, hr, hi, hk, hs⟩ => ⟨k, ⟨hk, hs⟩, r, hr, hi⟩⟩

end Descriptor.Message

namespace Schema

/-- The elements of a kind have their positions as indices. -/
theorem map_index_filter {α : Type} {l : List α} {index : α → Nat}
    (h : l.map index = List.range l.length) (p : α → Bool) :
    (l.filter p).map index = (List.range l.length).filter fun j => l[j]?.any p := by
  rw [← h, List.filter_map]
  refine congrArg (List.map index) (List.filter_congr fun a ha => ?_)
  rw [Function.comp_apply, getElem?_index h ha, Option.any_some]

/-- A message has the data of its descriptor, and its oneofs have the fields that name them. -/
structure Message.Groups (m : Message) (raw : Descriptor.Message) : Prop where
  describes : m.Describes raw
  oneofs : m.oneofs = raw.oneofs.mapIdx fun k name => Oneof.ofName m.path m.fields k name

theorem File.ofDescriptor_groups {id : Nat} {raw : Descriptor.File} {f : File}
    (h : File.ofDescriptor id raw = .ok f) :
    List.Forall₂ Message.Groups f.messages (preorders raw.messages) := by
  obtain ⟨-, -, -, -, hm⟩ := File.ofDescriptor_ok h
  rw [← nodesOf_raws, hm, List.forall₂_map_right_iff]
  exact forall₂_mapIdx fun i node _ => ⟨Message.ofNode_describes .., rfl⟩

theorem oneofIndex_eq_iff {path : Path} {tag : Int} {j k : Nat} {r : Descriptor.Field} :
    (Field.ofDescriptor path tag j r).oneofIndex = some k ↔ r.oneofIndex = some (k : Int) := by
  rw [Field.ofDescriptor, Option.bind_eq_some_iff]
  simp [Int.mem_toNat?]

namespace Message.Groups

variable {raw : Descriptor.Message} {m : Message} (h : m.Groups raw)

include h

theorem numbered : m.Numbered where
  fields := by
    rw [h.describes.fields]
    exact fieldsOf_index ..
  oneofs := by
    rw [h.oneofs, map_mapIdx, List.length_mapIdx]
    apply List.ext_getElem <;> simp [Oneof.ofName]
  extensions := by
    rw [h.describes.extensions]
    exact fieldsOf_index ..

theorem length_fields : m.fields.length = raw.fields.length := by
  rw [h.describes.fields, fieldsOf, List.length_mapIdx]

theorem length_oneofs : m.oneofs.length = raw.oneofs.length := by
  rw [h.oneofs, List.length_mapIdx]

theorem oneof {k : Nat} {o : Oneof} (hk : m.oneofs[k]? = some o) :
    ∃ name, raw.oneofs[k]? = some name ∧ o = Oneof.ofName m.path m.fields k name := by
  rw [h.oneofs, List.getElem?_mapIdx, Option.map_eq_some_iff] at hk
  obtain ⟨name, hname, rfl⟩ := hk
  exact ⟨name, hname, rfl⟩

/-- The fields that name a oneof, by their positions. -/
theorem map_index (k : Nat) :
    (m.fields.filter (·.oneofIndex = some k)).map (·.index) = raw.namers k := by
  rw [map_index_filter h.numbered.fields, Descriptor.Message.namers, h.length_fields]
  refine List.filter_congr fun j _ => ?_
  rw [h.describes.fields, fieldsOf, List.getElem?_mapIdx, Option.any_map]
  exact congrArg (raw.fields[j]?.any ·) (funext fun r => decide_eq_decide.mpr oneofIndex_eq_iff)

/-- A oneof is synthetic just if its descriptor has it as one. -/
theorem synthetic_iff {k : Nat} {o : Oneof} (hk : m.oneofs[k]? = some o) :
    o.synthetic ↔ raw.Synthetic k := by
  obtain ⟨name, -, rfl⟩ := h.oneof hk
  have hnil : m.fields.filter (·.oneofIndex = some k) = [] ↔ raw.namers k = [] := by
    rw [← h.map_index k, List.map_eq_nil_iff]
  have hall : (∀ x ∈ m.fields, x.oneofIndex = some k → x.proto3Optional) ↔
      ∀ r ∈ raw.fields, r.oneofIndex = some (k : Int) → r.proto3Optional := by
    rw [h.describes.fields, fieldsOf]
    constructor
    · intro hx r hr hi
      obtain ⟨j, hj, rfl⟩ := List.mem_iff_getElem.mp hr
      exact hx _ (List.mem_mapIdx.mpr ⟨j, hj, rfl⟩) (oneofIndex_eq_iff.mpr hi)
    · intro hr x hx hi
      obtain ⟨j, hj, rfl⟩ := List.mem_mapIdx.mp hx
      exact hr _ (List.getElem_mem hj) (oneofIndex_eq_iff.mp hi)
  simp only [Oneof.ofName, Bool.and_eq_true, Bool.not_eq_true', List.isEmpty_eq_false_iff,
    List.all_eq_true, List.mem_filter, decide_eq_true_eq, and_imp, ne_eq, hnil, hall]
  rfl

end Message.Groups

end Schema

end ProtoJava
