import ProtoJava.Proofs.Java.LibraryNames
import ProtoJava.Proofs.Mapping.Mentions

/-! # Calls

The classes that a text names, one after the other, and what the name of a class means when all of
the text has been written.
-/

namespace ProtoJava.Mapping

open Java (ClassName Imports)

/-- A text that is written with some imports names classes one after the other. -/
inductive Calls : {α : Type} → Referring α → Imports → List ClassName → Prop
  | pure {α : Type} (a : α) (i : Imports) : Calls (Pure.pure a) i []
  | refer (c : ClassName) (i : Imports) : Calls (refer c) i [c]
  | bind {α β : Type} {x : Referring α} {f : α → Referring β} {i : Imports}
      {cs ds : List ClassName} : Calls x i cs → Calls (f (x.run i).1) (x.run i).2 ds →
        Calls (x >>= f) i (cs ++ ds)

/-- After the text, the name of a class means this class, if it was free before. -/
def Binding {α : Type} (c : ClassName) (x : Referring α) : Prop :=
  ∀ i : Imports, i.Unshadowed → (x.run i).2.Unshadowed ∧ (x.run i).2.Binds c

section Runs

variable {α : Type} {x : Referring α} {i : Imports} {cs ds : List ClassName}

theorem referenceAll_append (i : Imports) (cs ds : List ClassName) :
    (i.referenceAll (cs ++ ds)).2 = ((i.referenceAll cs).2.referenceAll ds).2 := by
  induction cs generalizing i with
  | nil => rfl
  | cons c cs ih => exact ih (i.reference c).2

/-- The imports after a text are those after the classes that it names. -/
theorem Calls.run (h : Calls x i cs) : (x.run i).2 = (i.referenceAll cs).2 := by
  induction h with
  | pure a i => rfl
  | refer c i => rfl
  | @bind _ _ x f i cs ds _ _ ihx ihf =>
    change ((f (x.run i).1).run (x.run i).2).2 = _
    rw [ihf, ihx, referenceAll_append]

/-- A text that names only classes with a property names some of these. -/
theorem Mentions.exists_calls {P : ClassName → Prop} (h : Mentions P x) (i : Imports) :
    ∃ cs, Calls x i cs ∧ ∀ c ∈ cs, P c := by
  induction h generalizing i with
  | pure a => exact ⟨[], .pure a i, by simp⟩
  | refer hc => exact ⟨_, .refer _ i, by simpa using hc⟩
  | bind _ _ ihx ihf =>
    obtain ⟨cs, hcs, hp⟩ := ihx i
    obtain ⟨ds, hds, hq⟩ := ihf _ _
    exact ⟨cs ++ ds, .bind hcs hds, List.forall_mem_append.mpr ⟨hp, hq⟩⟩

end Runs

namespace Binding

variable {α β : Type} {c : ClassName} {x : Referring α} {f : α → Referring β}

theorem refer (hc : c.IsUtility) : Binding c (Mapping.refer c) :=
  fun _ hi => ⟨hi.reference hc.harmless, (hi.reference_utility hc).2⟩

/-- Harmless classes that are named later do not take the name away. -/
theorem before (h : Binding c x) (hf : ∀ a, Mentions ClassName.Harmless (f a)) :
    Binding c (x >>= f) := by
  intro i hi
  exact ((hf _).yields (I := fun j => j.Unshadowed ∧ j.Binds c)
    (fun j c' hj hc' => ⟨hj.1.reference hc', hj.2.reference c'⟩) _ (h i hi)).2

theorem after (hx : Mentions ClassName.Harmless x) (hf : ∀ a, Binding c (f a)) :
    Binding c (x >>= f) :=
  fun i hi => hf _ _ (hx.yields (fun _ _ hj hc => hj.reference hc) i hi).2

theorem mapM {f : α → Referring β} {l : List α} {a : α} (ha : a ∈ l) (h : Binding c (f a))
    (hm : ∀ a ∈ l, Mentions ClassName.Harmless (f a)) : Binding c (l.mapM f) := by
  induction l with
  | nil => exact absurd ha List.not_mem_nil
  | cons b l ih =>
    rw [List.forall_mem_cons] at hm
    rw [List.mapM_cons]
    rcases List.mem_cons.mp ha with rfl | ha
    · exact h.before fun _ => .bind (.mapM hm.2) fun _ => .pure _
    · exact .after hm.1 fun _ => (ih ha hm.2).before fun _ => .pure _

end Binding

theorem isUtility_of_mem {c : ClassName} (h : c ∈ utilities) : c.IsUtility := by
  have hall : ∀ c ∈ utilities, c.package = "java.util" ∧ c.outermost ∈ Naming.libraryTypes := by
    decide
  exact ⟨(hall c h).1, (hall c h).2⟩

theorem simple_of_mem {c : ClassName} (h : c ∈ utilities) :
    c.relative = c.simple ∧ c.outermost = c.simple := by
  have hall : ∀ c ∈ utilities, c.relative = c.simple ∧ c.outermost = c.simple := by decide
  exact hall c h

end ProtoJava.Mapping
