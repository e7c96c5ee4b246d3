import Mathlib.Data.List.DropRight
import ProtoJava.Text.Blank

/-! # Trimmed texts

What is left of a text without the characters of a kind at its ends, as a relation between the two.
-/

namespace ProtoJava.Text

/-- A text has `ds` left without the characters of a kind around it. -/
structure Strips (p : Char → Bool) (cs ds : List Char) : Prop where
  around : ∃ before after, cs = before ++ ds ++ after ∧ (∀ c ∈ before, p c) ∧ ∀ c ∈ after, p c
  first : ∀ c ∈ ds.head?, ¬ p c
  last : ∀ c ∈ ds.getLast?, ¬ p c

section Strips

variable {p : Char → Bool} {cs ds : List Char}

theorem dropEndWhile_eq_rdropWhile (p : Char → Bool) (cs : List Char) :
    dropEndWhile p cs = cs.rdropWhile p := rfl

theorem not_of_mem_head?_dropWhile {c : Char} (h : c ∈ (cs.dropWhile p).head?) : ¬ p c := by
  induction cs with
  | nil => simp at h
  | cons d cs ih =>
    rw [List.dropWhile_cons] at h
    split at h
    · exact ih h
    · next hd =>
      obtain rfl := Option.some.inj h
      exact hd

theorem dropWhile_of_head? (h : ∀ c ∈ cs.head?, ¬ p c) : cs.dropWhile p = cs := by
  cases cs with
  | nil => rfl
  | cons c cs => exact List.dropWhile_cons_of_neg (h c rfl)

theorem rdropWhile_of_getLast? (h : ∀ c ∈ cs.getLast?, ¬ p c) : cs.rdropWhile p = cs :=
  List.rdropWhile_eq_self_iff.mpr fun hne => h _ (List.getLast?_eq_getLast_of_ne_nil hne)

/-- Nothing is dropped where no end is of the kind. -/
theorem dropEndsWhile_eq_self (hf : ∀ c ∈ cs.head?, ¬ p c) (hl : ∀ c ∈ cs.getLast?, ¬ p c) :
    dropEndsWhile p cs = cs := by
  rw [dropEndsWhile, dropEndWhile_eq_rdropWhile, dropWhile_of_head? hf, rdropWhile_of_getLast? hl]

theorem strips_dropEndsWhile (p : Char → Bool) (cs : List Char) :
    Strips p cs (dropEndsWhile p cs) := by
  have hsplit := List.rdropWhile_append_rtakeWhile (p := p) (l := cs.dropWhile p)
  rw [dropEndsWhile, dropEndWhile_eq_rdropWhile]
  constructor
  case around =>
    refine ⟨cs.takeWhile p, (cs.dropWhile p).rtakeWhile p, ?_, fun c => List.mem_takeWhile_imp,
      fun c => List.mem_rtakeWhile_imp⟩
    rw [List.append_assoc, hsplit, List.takeWhile_append_dropWhile]
  case first =>
    intro c hc
    have hfirst : c ∈ (cs.dropWhile p).head? := by
      rw [← hsplit, List.head?_append, Option.mem_def.mp hc]
      rfl
    exact not_of_mem_head?_dropWhile hfirst
  case last =>
    intro c hc
    obtain ⟨hne, rfl⟩ := List.mem_getLast?_eq_getLast hc
    exact List.rdropWhile_last_not p _ hne

/-- A text is trimmed in one way only. -/
theorem strips_iff : Strips p cs ds ↔ ds = dropEndsWhile p cs := by
  constructor
  · rintro ⟨⟨before, after, rfl, hbefore, hafter⟩, hf, hl⟩
    rw [dropEndsWhile, dropEndWhile, List.append_assoc, List.dropWhile_append_of_pos hbefore]
    by_cases hds : ds = []
    · subst hds
      rw [List.nil_append, List.dropWhile_eq_nil_iff.mpr hafter]
      rfl
    · have hstart : ∀ c ∈ (ds ++ after).head?, ¬ p c := by
        rwa [List.head?_append_of_ne_nil _ hds]
      have hend : ∀ c ∈ ds.reverse.head?, ¬ p c := by
        rwa [List.head?_reverse]
      rw [dropWhile_of_head? hstart, List.reverse_append,
        List.dropWhile_append_of_pos fun c hc => hafter c (List.mem_reverse.mp hc),
        dropWhile_of_head? hend, List.reverse_reverse]
  · rintro rfl
    exact strips_dropEndsWhile p cs

end Strips

end ProtoJava.Text
