import Mathlib.Data.List.Induction
import Mathlib.Data.List.Nodup
import ProtoJava.Proofs.Schema.Linking

/-! # Outcomes of linking

Messages may name any parents, themselves included. A parent that is missing is found before a
message is touched; a wrong number of children is found message by message, and the messages before
the first one keep the children they have been given.
-/

namespace ProtoJava.Schema

/-- A kind of children that messages can be linked with: how many of them a message declares, and
how they are attached to it. -/
structure Linking where
  declared : Message → Nat
  attached : Message → List Nat
  attach : Message → List Nat → Message
  mismatch : String → Nat → Nat → Error
  attached_attach : ∀ m c, attached (attach m c) = c
  attach_attach : ∀ m c d, attach (attach m c) d = attach m d

/-- Parents and the children listed for each of them agree. -/
structure Owned (parents : List (Option Nat)) (lists : List (List Nat)) : Prop where
  ascending : ∀ c ∈ lists, c.Pairwise (· < ·)
  children : ∀ (p : Nat) (c : List Nat), lists[p]? = some c →
    ∀ i, i ∈ c ↔ parents[i]? = some (some p)
  once : ∀ i p : Nat, parents[i]? = some (some p) → lists.flatten.count i = 1

/-- Every parent that is named is one of `count` messages. -/
def Present (count : Nat) (children : List (String × Option Nat)) : Prop :=
  ∀ c ∈ children, ∀ p, c.2 = some p → p < count

namespace Linking

def nested : Linking where
  declared m := m.declaredNested
  attached m := m.nested
  attach m nested := { m with nested }
  mismatch := .nestingMismatch
  attached_attach _ _ := rfl
  attach_attach _ _ _ := rfl

def enums : Linking where
  declared m := m.declaredEnums
  attached m := m.enums
  attach m enums := { m with enums }
  mismatch := .enumNestingMismatch
  attached_attach _ _ := rfl
  attach_attach _ _ _ := rfl

variable (l : Linking)

/-- Attaches children to a message, if there are as many as declared. -/
def link (m : Message) (c : List Nat) : Except Error Message :=
  if c.length = l.declared m then .ok (l.attach m c)
  else .error (l.mismatch m.fullName (l.declared m) c.length)

/-- Messages with the children that name them as their parent. -/
def attachAll (parents : List (Option Nat)) (ms : List Message) : List Message :=
  ms.mapIdx fun k m => l.attach m (childrenOf parents k)

/-- Every message has as many children as it declares. -/
def Counted (parents : List (Option Nat)) (ms : List Message) : Prop :=
  ∀ k m, ms[k]? = some m → (childrenOf parents k).length = l.declared m

/-- What becomes of messages that are linked with children, given by their names and parents. -/
inductive Outcome (children : List (String × Option Nat)) (ms : List Message) :
    List Message × Option Error → Prop
  /-- The first parent that is missing stops the linking before it begins. -/
  | dangling {before after : List (String × Option Nat)} {name : String} {p : Nat} :
      children = before ++ (name, some p) :: after → Present ms.length before → ms.length ≤ p →
        Outcome children ms (ms, some (.danglingParent name p))
  /-- The first message with another number of children stops it where it stands. -/
  | mismatch {before after : List Message} {m : Message} {c : List Nat} :
      Present ms.length children → ms = before ++ m :: after →
        l.Counted (children.map (·.2)) before →
          c = childrenOf (children.map (·.2)) before.length → c.length ≠ l.declared m →
            Outcome children ms (l.attachAll (children.map (·.2)) before ++ m :: after,
              some (l.mismatch m.fullName (l.declared m) c.length))
  | linked : Present ms.length children → l.Counted (children.map (·.2)) ms →
      Outcome children ms (l.attachAll (children.map (·.2)) ms, none)

/-- A result is that of linking messages with children: it is the one outcome, attached children are
all that has changed, and without an error they are those that name the message. -/
structure Exact (children : List (String × Option Nat)) (ms : List Message)
    (r : List Message × Option Error) : Prop where
  outcome : ∀ r', r = r' ↔ l.Outcome children ms r'
  kept : r.1.map (l.attach · []) = ms.map (l.attach · [])
  owned : r.2 = none → Owned (children.map (·.2)) (r.1.map l.attached)

end Linking

section Children

variable {parents : List (Option Nat)}

theorem childrenOf_ascending (parents : List (Option Nat)) (p : Nat) :
    (childrenOf parents p).Pairwise (· < ·) := by
  rw [childrenOf, positions_eq_filter parents fun q => decide (q = some p)]
  exact List.pairwise_lt_range.filter _

theorem childrenOf_disjoint {p q : Nat} (h : p ≠ q) :
    (childrenOf parents p).Disjoint (childrenOf parents q) := by
  intro i hp hq
  rw [mem_childrenOf] at hp hq
  exact h (Option.some.inj (Option.some.inj (hp.symm.trans hq)))

/-- The children of each of `count` messages, where no parent is another one. -/
theorem owned_childrenOf {count : Nat}
    (h : ∀ i p : Nat, parents[i]? = some (some p) → p < count) :
    Owned parents ((List.range count).map (childrenOf parents)) := by
  have hnodup : ((List.range count).map (childrenOf parents)).flatten.Nodup := by
    rw [List.nodup_flatten, List.pairwise_map]
    constructor
    · intro c hc
      obtain ⟨p, -, rfl⟩ := List.mem_map.mp hc
      exact childrenOf_nodup parents p
    · exact List.nodup_range.imp childrenOf_disjoint
  constructor
  case ascending =>
    intro c hc
    obtain ⟨p, -, rfl⟩ := List.mem_map.mp hc
    exact childrenOf_ascending parents p
  case children =>
    intro p c hc i
    obtain ⟨q, hq, rfl⟩ := List.getElem?_map .. ▸ hc |> Option.map_eq_some_iff.mp
    obtain ⟨-, rfl⟩ := List.getElem?_eq_some_iff.mp hq
    rw [List.getElem_range, mem_childrenOf]
  case once =>
    intro i p hp
    refine List.count_eq_one_of_mem hnodup (List.mem_flatten.mpr ⟨childrenOf parents p, ?_, ?_⟩)
    · exact List.mem_map_of_mem (List.mem_range.mpr (h i p hp))
    · exact mem_childrenOf.mpr hp

end Children

namespace Linking

variable {l : Linking} {parents : List (Option Nat)} {children : List (String × Option Nat)}
  {ms : List Message}

theorem kept_attachAll : (l.attachAll parents ms).map (l.attach · []) = ms.map (l.attach · []) := by
  apply List.ext_getElem
  · simp [attachAll]
  · intro k hk hk'
    simp [attachAll, l.attach_attach]

theorem attached_attachAll : (l.attachAll parents ms).map l.attached =
    (List.range ms.length).map (childrenOf parents) := by
  apply List.ext_getElem
  · simp [attachAll]
  · intro k hk hk'
    simp [attachAll, l.attached_attach]

/-- Linking goes on as long as the numbers of children are those declared. -/
theorem linkFrom_counted {i : Nat} {before : List Message} (after : List Message)
    (h : ∀ k m, before[k]? = some m → (childrenOf parents (i + k)).length = l.declared m) :
    linkFrom parents l.link i (before ++ after) =
      (before.mapIdx (fun k m => l.attach m (childrenOf parents (i + k))) ++
          (linkFrom parents l.link (i + before.length) after).1,
        (linkFrom parents l.link (i + before.length) after).2) := by
  induction before generalizing i with
  | nil => rfl
  | cons m before ih =>
    have hm : l.link m (childrenOf parents i) = .ok (l.attach m (childrenOf parents i)) :=
      if_pos (h 0 m rfl)
    have hrest := ih (i := i + 1) fun k a hk => by
      rw [Nat.add_right_comm, Nat.add_assoc]
      exact h (k + 1) a hk
    rw [List.cons_append, linkFrom, hm]
    simp only [hrest, List.mapIdx_cons, List.cons_append, List.length_cons, Nat.add_zero,
      Nat.add_assoc, Nat.add_comm 1]

theorem linkFrom_mismatch {i : Nat} {m : Message} {after : List Message}
    (h : (childrenOf parents i).length ≠ l.declared m) :
    linkFrom parents l.link i (m :: after) = (m :: after,
      some (l.mismatch m.fullName (l.declared m) (childrenOf parents i).length)) := by
  have hm : l.link m (childrenOf parents i) =
      .error (l.mismatch m.fullName (l.declared m) (childrenOf parents i).length) := if_neg h
  rw [linkFrom, hm]

/-- There is a first message whose number of children is not the one declared, or none. -/
theorem counted_or_first (l : Linking) (parents : List (Option Nat)) (ms : List Message) :
    l.Counted parents ms ∨ ∃ before m after, ms = before ++ m :: after ∧
      l.Counted parents before ∧ (childrenOf parents before.length).length ≠ l.declared m := by
  induction ms using List.reverseRecOn with
  | nil => exact Or.inl (by simp [Counted])
  | append_singleton ms m ih =>
    rcases ih with h | ⟨before, a, after, rfl, h, ha⟩
    · by_cases hm : (childrenOf parents ms.length).length = l.declared m
      · refine Or.inl fun k a hk => ?_
        rcases Nat.lt_or_ge k ms.length with hlt | hge
        · exact h k a (List.getElem?_append_left hlt ▸ hk)
        · obtain ⟨rfl, rfl⟩ : k = ms.length ∧ a = m := by
            rw [List.getElem?_append_right hge, List.getElem?_singleton] at hk
            grind
          exact hm
      · exact Or.inr ⟨ms, m, [], rfl, h, hm⟩
    · exact Or.inr ⟨before, a, after ++ [m], by simp, h, ha⟩

/-- There is a first child whose parent is missing, or none. -/
theorem present_or_first (count : Nat) (children : List (String × Option Nat)) :
    Present count children ∨ ∃ before name p after, children = before ++ (name, some p) :: after ∧
      Present count before ∧ count ≤ p := by
  induction children with
  | nil => exact Or.inl (List.forall_mem_nil _)
  | cons c rest ih =>
    obtain ⟨name, parent⟩ := c
    by_cases hc : ∀ p, parent = some p → p < count
    · rcases ih with h | ⟨before, name', p, after, rfl, h, hp⟩
      · exact Or.inl (List.forall_mem_cons.mpr ⟨hc, h⟩)
      · exact Or.inr ⟨(name, parent) :: before, name', p, after, rfl,
          List.forall_mem_cons.mpr ⟨hc, h⟩, hp⟩
    · obtain ⟨p, himp⟩ := not_forall.mp hc
      obtain ⟨rfl, hp⟩ := Classical.not_imp.mp himp
      exact Or.inr ⟨[], name, p, rest, rfl, List.forall_mem_nil _,
        Nat.le_of_not_lt hp⟩

theorem danglingParent?_first {count : Nat} {before after : List (String × Option Nat)}
    {name : String} {p : Nat} (h : Present count before) (hp : count ≤ p) :
    danglingParent? count (before ++ (name, some p) :: after) = some (.danglingParent name p) := by
  have hbefore : danglingParent? count before = none := danglingParent?_eq_none.mpr h
  rw [danglingParent?] at hbefore ⊢
  rw [List.findSome?_append, hbefore]
  simp [Option.filter, hp]

theorem linkAll_present (h : Present ms.length children) :
    linkAll children l.link ms = linkFrom (children.map (·.2)) l.link 0 ms := by
  rw [linkAll, danglingParent?_eq_none.mpr h]

/-- The result of linking is what it comes to. -/
theorem linkAll_of_outcome {r : List Message × Option Error} (h : l.Outcome children ms r) :
    linkAll children l.link ms = r := by
  cases h with
  | dangling hc hbefore hp =>
    rw [linkAll, hc, danglingParent?_first hbefore hp]
  | @mismatch before after m c hc hms hbefore hm hne =>
    subst hms hm
    have hlinked := linkFrom_counted (i := 0) (m :: after)
      (by simpa [Counted] using hbefore)
    rw [linkAll_present hc, hlinked, linkFrom_mismatch (by simpa using hne)]
    simp [attachAll]
  | linked hc hms =>
    have hlinked := linkFrom_counted (i := 0) [] (by simpa [Counted] using hms)
    rw [List.append_nil] at hlinked
    rw [linkAll_present hc, hlinked]
    simp [attachAll, linkFrom]

theorem outcome_linkAll (l : Linking) (children : List (String × Option Nat)) (ms : List Message) :
    l.Outcome children ms (linkAll children l.link ms) := by
  suffices h : ∃ r, l.Outcome children ms r by
    obtain ⟨r, hr⟩ := h
    rwa [linkAll_of_outcome hr]
  rcases present_or_first ms.length children with hc | ⟨before, name, p, after, hc, hbefore, hp⟩
  · rcases l.counted_or_first (children.map (·.2)) ms with hm | ⟨before, m, after, hms, hm, hne⟩
    · exact ⟨_, .linked hc hm⟩
    · exact ⟨_, .mismatch hc hms hm rfl hne⟩
  · exact ⟨_, .dangling hc hbefore hp⟩

/-- Linking with any children is exact. -/
theorem exact_linkAll (l : Linking) (children : List (String × Option Nat)) (ms : List Message) :
    l.Exact children ms (linkAll children l.link ms) := by
  constructor
  case outcome =>
    intro r
    constructor
    · rintro rfl
      exact l.outcome_linkAll children ms
    · exact linkAll_of_outcome
  case kept =>
    have h := l.outcome_linkAll children ms
    generalize linkAll children l.link ms = r at h
    cases h with
    | dangling => rfl
    | mismatch _ hms => rw [hms, List.map_append, List.map_append, kept_attachAll]
    | linked => exact kept_attachAll
  case owned =>
    have h := l.outcome_linkAll children ms
    generalize linkAll children l.link ms = r at h
    intro hok
    cases h with
    | dangling => exact nomatch hok
    | mismatch => exact nomatch hok
    | linked hc =>
      rw [attached_attachAll]
      refine owned_childrenOf fun i p hp => ?_
      rw [List.getElem?_map, Option.map_eq_some_iff] at hp
      obtain ⟨c, hmem, hp⟩ := hp
      exact hc c (List.mem_of_getElem? hmem) p hp

end Linking

/-- Messages with any parents and any numbers of declared children are linked with the messages and
the enums nested in them, or up to the first one at fault. -/
theorem linking_exact (ms : List Message) (es : List EnumType) :
    Linking.nested.Exact (ms.map fun m => (m.fullName, m.parent)) ms (linkNested ms) ∧
      Linking.enums.Exact (es.map fun e => (e.fullName, e.parent)) ms (linkEnums ms es) := by
  constructor
  case left =>
    exact Linking.nested.exact_linkAll (ms.map fun m => (m.fullName, m.parent)) ms
  case right =>
    exact Linking.enums.exact_linkAll (es.map fun e => (e.fullName, e.parent)) ms

/-- Two messages inside each other are linked before one that lacks a child. -/
example : let r := linkNested [{ fullName := "A", parent := some 1, declaredNested := 1 },
      { fullName := "B", parent := some 0, declaredNested := 1 },
      { fullName := "C", declaredNested := 2, nested := [7] }]
    (r.1.map (·.nested), r.2) = ([[1], [0], [7]], some (.nestingMismatch "C" 2 0)) := by
  decide

end ProtoJava.Schema
