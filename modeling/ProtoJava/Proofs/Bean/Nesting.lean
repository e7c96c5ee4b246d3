import Mathlib.Algebra.BigOperators.Option
import ProtoJava.Bean.Outline
import ProtoJava.Proofs.Schema.Built

/-! # Sums over nested declarations

What is added up over the tree of the messages that are shown, from the messages at the top
inwards, is added up once for each of these messages; likewise for enums.
-/

namespace ProtoJava.Schema

/-- Whether a message is no map entry and is inside none. -/
def File.shown (f : File) (i : Nat) : Bool :=
  (f.enclosing i).all fun j => !(f.message j).mapEntry

variable {f : File}

theorem File.Linked.shown_iff (hl : f.Linked) {i : Nat} (hi : i < f.messages.length) :
    f.shown i ↔ f.Shown i := by
  induction i using Nat.strongRecOn with
  | ind i ih =>
    cases hp : (f.message i).parent with
    | none =>
      rw [File.shown, File.Linked.enclosing_top hp]
      simp only [List.all_cons, List.all_nil, Bool.and_true, Bool.not_eq_true']
      exact ⟨fun h => .top hi h hp, File.Shown.mapEntry⟩
    | some p =>
      have hlt := hl.parent_lt i p hp
      rw [File.shown, hl.enclosing_nested hp, List.all_cons, Bool.and_eq_true]
      change _ ∧ f.shown p ↔ _
      rw [ih p hlt (hlt.trans hi), Bool.not_eq_true']
      exact ⟨fun h => .nested hi h.1 hp h.2, fun h => ⟨h.mapEntry, h.parent hp⟩⟩

/-- Positions of the messages that are shown. -/
def File.shownMessages (f : File) : List Nat :=
  (List.range f.messages.length).filter f.shown

/-- Positions of the enums that are inside no map entry. -/
def File.shownEnums (f : File) : List Nat :=
  (List.range f.enums.length).filter fun i => (f.enumType i).parent.all f.shown

theorem File.Linked.mem_shownMessages_iff (hl : f.Linked) {i : Nat} :
    i ∈ f.shownMessages ↔ f.Shown i := by
  rw [File.shownMessages, List.mem_filter, List.mem_range]
  exact ⟨fun h => (hl.shown_iff h.1).mp h.2, fun h => ⟨h.lt, (hl.shown_iff h.lt).mpr h⟩⟩

theorem File.Linked.mem_nestedClasses_iff (hl : f.Linked) {i n : Nat} (hi : f.Shown i) :
    n ∈ Bean.nestedClasses f i ↔ f.Shown n ∧ (f.message n).parent = some i := by
  simp only [Bean.nestedClasses, List.mem_filter, hl.mem_nested_iff hi.lt, Bool.and_eq_true,
    Bool.not_eq_true', decide_eq_true_eq]
  constructor
  · rintro ⟨⟨hlt, hp⟩, hm, -⟩
    exact ⟨.nested hlt hm hp hi, hp⟩
  · rintro ⟨hs, hp⟩
    exact ⟨⟨hs.lt, hp⟩, hs.mapEntry, hl.parent_lt n i hp, hs.lt⟩

section Sums

open Finset

variable {M : Type} [AddCancelCommMonoid M]

/-- What is added up over a forest, at its roots and at what is in each parent, is added up once for
everything in it. -/
theorem sum_forest {s t : Finset Nat} (parent : Nat → Option Nat) {roots : List Nat}
    {children : Nat → List Nat} (F : Nat → M) (hs : ∀ n ∈ s, ∀ p ∈ parent n, p ∈ t)
    (hr : roots.Nodup ∧ ∀ n, n ∈ roots ↔ n ∈ s ∧ parent n = none)
    (hc : ∀ i ∈ t, (children i).Nodup ∧ ∀ n, n ∈ children i ↔ n ∈ s ∧ parent n = some i) :
    (roots.map F).sum + ∑ i ∈ t, ((children i).map F).sum = ∑ n ∈ s, F n := by
  have hfiber : ∀ (p : Option Nat) (ns : List Nat),
      ns.Nodup ∧ (∀ n, n ∈ ns ↔ n ∈ s ∧ parent n = p) →
        (ns.map F).sum = ∑ n ∈ s with parent n = p, F n := by
    rintro p ns ⟨hd, hm⟩
    rw [← List.sum_toFinset F hd]
    refine sum_congr (Finset.ext fun n => ?_) fun _ _ => rfl
    rw [List.mem_toFinset, hm, mem_filter]
  have hmaps : ∀ n ∈ s, parent n ∈ insertNone t := fun n hn => by
    rw [mem_insertNone]
    exact hs n hn
  rw [hfiber none roots hr, sum_congr rfl fun i hi => hfiber (some i) (children i) (hc i hi),
    ← sum_insertNone (fun p => ∑ n ∈ s with parent n = p, F n)]
  exact sum_fiberwise_of_maps_to hmaps F

theorem File.shownMessages_nodup (f : File) : f.shownMessages.Nodup :=
  List.nodup_range.filter _

/-- Sums over the trees at the top are sums over the messages that are shown. -/
theorem File.Linked.sum_messages (hl : f.Linked) {tree own : Nat → M}
    (h : ∀ i, f.Shown i → tree i = own i + ((Bean.nestedClasses f i).map tree).sum) :
    ((f.topMessages.filter fun i => !(f.message i).mapEntry).map tree).sum =
      (f.shownMessages.map own).sum := by
  let shown := f.shownMessages.toFinset
  have hmem : ∀ i, i ∈ shown ↔ f.Shown i := fun i => by
    rw [List.mem_toFinset, hl.mem_shownMessages_iff]
  have hforest : ((f.topMessages.filter fun i => !(f.message i).mapEntry).map tree).sum +
      ∑ i ∈ shown, ((Bean.nestedClasses f i).map tree).sum = ∑ i ∈ shown, tree i := by
    refine sum_forest (fun i => (f.message i).parent) tree (fun n hn p hp => ?parents)
      ⟨f.topMessages_nodup.filter _, fun n => ?roots⟩ fun i hi => ⟨?distinct, fun n => ?children⟩
    case parents => exact (hmem p).mpr (((hmem n).mp hn).parent hp)
    case roots =>
      rw [List.mem_filter, File.mem_topMessages_iff, hmem, Bool.not_eq_true']
      constructor
      · rintro ⟨⟨hi, hp⟩, hm⟩
        exact ⟨.top hi hm hp, hp⟩
      · rintro ⟨hs, hp⟩
        exact ⟨⟨hs.lt, hp⟩, hs.mapEntry⟩
    case distinct =>
      rw [Bean.nestedClasses, hl.nested i ((hmem i).mp hi).lt]
      exact (childrenOf_nodup _ _).filter _
    case children => rw [hl.mem_nestedClasses_iff ((hmem i).mp hi), hmem]
  -- Every nested tree stands on both sides and cancels.
  rw [sum_congr rfl fun i hi => h i ((hmem i).mp hi), sum_add_distrib] at hforest
  rw [add_right_cancel hforest]
  exact List.sum_toFinset own f.shownMessages_nodup

/-- Sums over the enums at the top and those of the messages that are shown. -/
theorem File.Linked.sum_enums (hl : f.Linked) (F : Nat → M) :
    (f.topEnums.map F).sum + (f.shownMessages.map fun i => ((f.message i).enums.map F).sum).sum =
      (f.shownEnums.map F).sum := by
  have hmem : ∀ i, i ∈ f.shownEnums.toFinset ↔
      i < f.enums.length ∧ ∀ p ∈ (f.enumType i).parent, f.Shown p := by
    intro i
    simp only [List.mem_toFinset, File.shownEnums, List.mem_filter, List.mem_range,
      Option.all_eq_true]
    refine and_congr_right fun _ => forall₂_congr fun p hp => ?_
    exact hl.shown_iff (hl.enum_parent_lt i p hp)
  have hshown : ∀ i, i ∈ f.shownMessages.toFinset ↔ f.Shown i := fun i => by
    rw [List.mem_toFinset, hl.mem_shownMessages_iff]
  have hnodup : f.shownEnums.Nodup := List.nodup_range.filter _
  rw [← List.sum_toFinset _ f.shownMessages_nodup, ← List.sum_toFinset F hnodup]
  refine sum_forest (fun i => (f.enumType i).parent) F (fun n hn p hp => ?parents)
    ⟨f.topEnums_nodup, fun n => ?roots⟩ fun i hi => ⟨?distinct, fun n => ?children⟩
  case parents => exact (hshown p).mpr (((hmem n).mp hn).2 p hp)
  case roots =>
    rw [File.mem_topEnums_iff, hmem]
    exact ⟨fun ⟨hn, hp⟩ => ⟨⟨hn, by simp [hp]⟩, hp⟩, fun ⟨hn, hp⟩ => ⟨hn.1, hp⟩⟩
  case distinct =>
    rw [hl.enums i ((hshown i).mp hi).lt]
    exact childrenOf_nodup _ _
  case children =>
    have hi := (hshown i).mp hi
    rw [hl.mem_enums_iff hi.lt, hmem]
    exact ⟨fun ⟨hn, hp⟩ => ⟨⟨hn, by simpa [hp] using hi⟩, hp⟩, fun ⟨hn, hp⟩ => ⟨hn.1, hp⟩⟩

end Sums

end ProtoJava.Schema
