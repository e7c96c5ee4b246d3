import Mathlib.Data.List.Nodup

/-! # Branching lists

Lists that start alike and then go on by the codes of different labels are different. The places of
declarations in a tree are such lists, below the place of what they are declared in.
-/

namespace ProtoJava.Schema

variable {α β : Type}

/-- Codes of labels, none of which starts another one. -/
structure IsCode (code : β → List α) : Prop where
  ne_nil : ∀ b, code b ≠ []
  unique : ∀ {b b' : β} {x : List α}, code b <+: x → code b' <+: x → b = b'

/-- Distinct lists that go on from `p` by the code of one of the labels. -/
structure Fan (code : β → List α) (labels : β → Prop) (p : List α) (qs : List (List α)) :
    Prop where
  nodup : qs.Nodup
  label : ∀ q ∈ qs, ∃ b, labels b ∧ p ++ code b <+: q

namespace Fan

variable {code : β → List α} {labels labels' : β → Prop} {p : List α} {qs qs' : List (List α)}

theorem nil : Fan code labels p [] where
  nodup := List.nodup_nil
  label := List.forall_mem_nil _

theorem mono (h : Fan code labels p qs) (hl : ∀ b, labels b → labels' b) :
    Fan code labels' p qs where
  nodup := h.nodup
  label q hq := by
    obtain ⟨b, hb, hp⟩ := h.label q hq
    exact ⟨b, hl b hb, hp⟩

theorem append (hc : IsCode code) (h : Fan code labels p qs) (h' : Fan code labels' p qs')
    (hd : ∀ b, labels b → ¬ labels' b) :
    Fan code (fun b => labels b ∨ labels' b) p (qs ++ qs') where
  nodup := by
    refine List.Nodup.append h.nodup h'.nodup fun q hq hq' => ?_
    obtain ⟨b, hb, hp⟩ := h.label q hq
    obtain ⟨b', hb', hp'⟩ := h'.label q hq'
    obtain ⟨x, rfl⟩ := (List.prefix_append p (code b)).trans hp
    rw [List.prefix_append_right_inj] at hp hp'
    exact hd b hb (hc.unique hp hp' ▸ hb')
  label q hq := by
    rcases List.mem_append.mp hq with hq | hq
    · obtain ⟨b, hb, hp⟩ := h.label q hq
      exact ⟨b, Or.inl hb, hp⟩
    · obtain ⟨b, hb, hp⟩ := h'.label q hq
      exact ⟨b, Or.inr hb, hp⟩

/-- What goes on from a list is different from it. -/
theorem nodup_cons (hc : IsCode code) (h : Fan code labels p qs) : (p :: qs).Nodup := by
  refine List.nodup_cons.mpr ⟨fun hp => ?_, h.nodup⟩
  obtain ⟨b, -, hb⟩ := h.label p hp
  have hlength := hb.length_le
  rw [List.length_append] at hlength
  exact hc.ne_nil b (List.length_eq_zero_iff.mp (by omega))

/-- A list and what goes on from it, below what it goes on from itself. -/
theorem cons (hc : IsCode code) {b : β} (h : Fan code labels (p ++ code b) qs) :
    Fan code (· = b) p ((p ++ code b) :: qs) where
  nodup := h.nodup_cons hc
  label q hq := by
    refine ⟨b, rfl, ?_⟩
    rcases List.mem_cons.mp hq with rfl | hq
    · exact List.prefix_rfl
    · obtain ⟨b', -, hp⟩ := h.label q hq
      exact (List.prefix_append _ _).trans hp

theorem single (b : β) : Fan code (· = b) p [p ++ code b] where
  nodup := List.nodup_singleton _
  label := List.forall_mem_singleton.mpr ⟨b, rfl, List.prefix_rfl⟩

/-- Branches below different labels. -/
theorem flatMap {ι : Type} (hc : IsCode code) {l : List ι} {label : ι → β}
    {branch : ι → List (List α)} (hl : (l.map label).Nodup)
    (h : ∀ i ∈ l, Fan code (· = label i) p (branch i)) :
    Fan code (· ∈ l.map label) p (l.flatMap branch) := by
  induction l with
  | nil => exact nil
  | cons i l ih =>
    rw [List.map_cons, List.nodup_cons] at hl
    have htail := ih hl.2 fun j hj => h j (List.mem_cons_of_mem i hj)
    refine (append hc (h i List.mem_cons_self) htail ?_).mono fun b hb => ?_
    · rintro b rfl
      exact hl.1
    · exact List.mem_cons.mpr hb

theorem map {ι : Type} (hc : IsCode code) {l : List ι} {label : ι → β} (hl : (l.map label).Nodup) :
    Fan code (· ∈ l.map label) p (l.map fun i => p ++ code (label i)) := by
  have hsingle : ∀ i ∈ l, Fan code (· = label i) p [p ++ code (label i)] :=
    fun i _ => single (label i)
  rw [List.map_eq_flatMap (f := fun i => p ++ code (label i))]
  exact flatMap hc hl hsingle

end Fan

end ProtoJava.Schema
