import ProtoJava.Schema.Link

/-! # Children of linked messages

A linking without an error attaches to every message exactly the positions that name it as their
parent, and changes nothing else.
-/

namespace ProtoJava.Schema

theorem mem_positions_iff {α : Type} {l : List α} {p : α → Bool} {n : Nat} :
    n ∈ (l.zipIdx.filter (p ·.1)).map (·.2) ↔ ∃ a, l[n]? = some a ∧ p a := by
  simp only [List.mem_map, List.mem_filter, Prod.exists, exists_eq_right,
    List.mem_zipIdx_iff_getElem?]

theorem positions_nodup {α : Type} (l : List α) (p : α × Nat → Bool) :
    ((l.zipIdx.filter p).map (·.2)).Nodup := by
  refine List.Nodup.sublist (List.filter_sublist.map _) ?_
  rw [List.zipIdx_map_snd]
  exact List.nodup_range'

theorem mem_childrenOf {parents : List (Option Nat)} {p n : Nat} :
    n ∈ childrenOf parents p ↔ parents[n]? = some (some p) := by
  rw [childrenOf, mem_positions_iff (p := fun q => decide (q = some p))]
  simp

theorem childrenOf_nodup (parents : List (Option Nat)) (p : Nat) :
    (childrenOf parents p).Nodup :=
  positions_nodup ..

/-- Positions of a kind of elements, as a part of all positions in their order. -/
theorem positions_eq_filter {α : Type} (l : List α) (p : α → Bool) :
    (l.zipIdx.filter (p ·.1)).map (·.2) =
      (List.range l.length).filter fun i => l[i]?.any p := by
  have hp : l.zipIdx.filter (p ·.1) = l.zipIdx.filter ((fun i => l[i]?.any p) ∘ Prod.snd) := by
    apply List.filter_congr
    intro x hx
    rw [Function.comp_apply, List.mem_zipIdx_iff_getElem?.mp hx, Option.any_some]
  rw [hp, ← List.filter_map, List.zipIdx_map_snd, List.range_eq_range']

/-- The elements at the positions of a kind of elements are all that are of the kind. -/
theorem map_positions {α : Type} (l : List α) (p : α → Bool) :
    ((l.zipIdx.filter (p ·.1)).map (·.2)).map (l[·]?) = (l.filter p).map some := by
  have hget : ∀ x ∈ l.zipIdx.filter (p ·.1), l[x.2]? = some x.1 := fun x hx =>
    List.mem_zipIdx_iff_getElem?.mp (List.mem_filter.mp hx).1
  calc ((l.zipIdx.filter (p ·.1)).map (·.2)).map (l[·]?)
      = (l.zipIdx.filter (p ·.1)).map fun x => some x.1 := by
        rw [List.map_map]
        exact List.map_congr_left hget
    _ = ((l.zipIdx.filter (p ∘ Prod.fst)).map Prod.fst).map some := by
        rw [List.map_map]
        rfl
    _ = (l.filter p).map some := by rw [← List.filter_map, List.zipIdx_map_fst]

theorem positions_map {α β : Type} (f : α → β) (l : List α) (p : β → Bool) :
    ((l.map f).zipIdx.filter (p ·.1)).map (·.2) =
      (l.zipIdx.filter fun x => p (f x.1)).map (·.2) := by
  rw [List.zipIdx_map, List.filter_map, List.map_map]
  rfl

section Positions

variable {α : Type} (l : List α) (parent : α → Option Nat) (p : Nat)

theorem childrenOf_map :
    childrenOf (l.map parent) p =
      (l.zipIdx.filter fun x => decide (parent x.1 = some p)).map (·.2) :=
  positions_map parent l fun q => decide (q = some p)

theorem childrenOf_eq_filter :
    childrenOf (l.map parent) p =
      (List.range l.length).filter fun i => l[i]?.any (parent · = some p) := by
  rw [childrenOf_map]
  exact positions_eq_filter l fun a => decide (parent a = some p)

theorem map_childrenOf :
    (childrenOf (l.map parent) p).map (l[·]?) = (l.filter (parent · = some p)).map some := by
  rw [childrenOf_map]
  exact map_positions l fun a => decide (parent a = some p)

theorem length_childrenOf :
    (childrenOf (l.map parent) p).length = (l.filter (parent · = some p)).length := by
  simpa using congrArg List.length (map_childrenOf l parent p)

end Positions

variable {parents : List (Option Nat)} {link : Message → List Nat → Except Error Message}
  {update : Message → List Nat → Message}

/-- Linking is the update of every message with its children. -/
theorem linkFrom_ok (hl : ∀ m c m', link m c = .ok m' → m' = update m c)
    {i : Nat} {ms ms' : List Message} (h : linkFrom parents link i ms = (ms', none)) :
    ms' = ms.mapIdx fun k m => update m (childrenOf parents (i + k)) := by
  induction ms generalizing i ms' with
  | nil => simpa [linkFrom, eq_comm] using h
  | cons m r ih =>
    rw [linkFrom] at h
    split at h
    · simp at h
    · next m' hm =>
      obtain ⟨ms, e, hr⟩ : ∃ ms e, linkFrom parents link (i + 1) r = (ms, e) := ⟨_, _, rfl⟩
      rw [hr] at h
      obtain ⟨rfl, rfl⟩ := Prod.mk.inj h
      rw [hl _ _ _ hm, ih hr]
      simp [List.mapIdx_cons, Nat.add_assoc, Nat.add_comm 1]

theorem exists_linkFrom {i : Nat} {ms : List Message}
    (h : ∀ k m, ms[k]? = some m → ∃ m', link m (childrenOf parents (i + k)) = .ok m') :
    ∃ ms', linkFrom parents link i ms = (ms', none) := by
  induction ms generalizing i with
  | nil => exact ⟨[], rfl⟩
  | cons m r ih =>
    obtain ⟨m', hm⟩ := h 0 m rfl
    obtain ⟨r', hr⟩ := ih (i := i + 1) fun k a hk => by
      have := h (k + 1) a hk
      rwa [← Nat.add_assoc, Nat.add_right_comm] at this
    rw [Nat.add_zero] at hm
    exact ⟨m' :: r', by simp only [linkFrom, hm, hr]⟩

theorem danglingParent?_eq_none {count : Nat} {children : List (String × Option Nat)} :
    danglingParent? count children = none ↔ ∀ c ∈ children, ∀ p, c.2 = some p → p < count := by
  simp [danglingParent?]

theorem linkAll_ok (hl : ∀ m c m', link m c = .ok m' → m' = update m c)
    {children : List (String × Option Nat)} {ms ms' : List Message}
    (h : linkAll children link ms = (ms', none)) :
    (∀ c ∈ children, ∀ p, c.2 = some p → p < ms.length) ∧
      ms' = ms.mapIdx fun k m => update m (childrenOf (children.map (·.2)) k) := by
  rw [linkAll] at h
  split at h
  · simp at h
  · next hd => exact ⟨danglingParent?_eq_none.mp hd, by simpa using linkFrom_ok hl h⟩

theorem exists_linkAll {children : List (String × Option Nat)} {ms : List Message}
    (hp : ∀ c ∈ children, ∀ p, c.2 = some p → p < ms.length)
    (h : ∀ k m, ms[k]? = some m →
      ∃ m', link m (childrenOf (children.map (·.2)) k) = .ok m') :
    ∃ ms', linkAll children link ms = (ms', none) := by
  rw [linkAll, danglingParent?_eq_none.mpr hp]
  exact exists_linkFrom (by simpa using h)

theorem Message.withNested_ok {m m' : Message} {c : List Nat} (h : m.withNested c = .ok m') :
    m' = { m with nested := c } := by
  unfold withNested at h
  split at h <;> simp_all

theorem Message.withEnums_ok {m m' : Message} {c : List Nat} (h : m.withEnums c = .ok m') :
    m' = { m with enums := c } := by
  unfold withEnums at h
  split at h <;> simp_all

theorem linked_eq_ok_iff {x : List Message × Option Error} {ms : List Message} :
    linked x = .ok ms ↔ x = (ms, none) := by
  obtain ⟨ms', e⟩ := x
  cases e <;> simp [linked]

theorem linkNested_ok {ms ms' : List Message} (h : linkNested ms = (ms', none)) :
    ms' = ms.mapIdx fun i m => { m with nested := childrenOf (ms.map (·.parent)) i } := by
  have := (linkAll_ok (fun _ _ _ => Message.withNested_ok) h).2
  simpa [Function.comp_def] using this

theorem linkEnums_ok {ms ms' : List Message} {es : List EnumType}
    (h : linkEnums ms es = (ms', none)) :
    (∀ e ∈ es, ∀ p, e.parent = some p → p < ms.length) ∧
      ms' = ms.mapIdx fun i m => { m with enums := childrenOf (es.map (·.parent)) i } := by
  obtain ⟨hp, hm⟩ := linkAll_ok (fun _ _ _ => Message.withEnums_ok) h
  refine ⟨fun e he p h => hp (e.fullName, e.parent) (List.mem_map_of_mem he) p h, ?_⟩
  simpa [Function.comp_def] using hm

end ProtoJava.Schema
