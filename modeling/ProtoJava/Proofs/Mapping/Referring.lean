import Mathlib.Data.List.Forall2
import ProtoJava.Mapping.Render
import ProtoJava.Proofs.Java.Imports

/-! # Text that names classes

What holds of a text whatever classes have been named before it, and what stays true of the imports.
-/

namespace ProtoJava.Mapping

open Java (Imports)

/-- With imports that satisfy `I`, the result of naming classes satisfies `P`, and so do the imports
`I` afterwards. -/
def Yields {α : Type} (I : Imports → Prop) (x : Referring α) (P : α → Prop) : Prop :=
  ∀ i : Imports, I i → P (x.run i).1 ∧ I (x.run i).2

/-- No condition on imports. -/
def AnyImports (_ : Imports) : Prop :=
  True

namespace Yields

variable {α β : Type} {I : Imports → Prop} {x : Referring α} {P : α → Prop}

theorem trivial (x : Referring α) : Yields AnyImports x fun _ => True :=
  fun _ _ => ⟨True.intro, True.intro⟩

theorem pure {a : α} (h : P a) : Yields I (Pure.pure a) P :=
  fun _ hi => ⟨h, hi⟩

theorem bind {f : α → Referring β} {R : β → Prop} (h : Yields I x P)
    (hf : ∀ a, P a → Yields I (f a) R) : Yields I (x >>= f) R :=
  fun i hi => hf _ (h i hi).1 _ (h i hi).2

/-- What a step on each element of a list yields, element by element. -/
theorem mapM {f : α → Referring β} {R : α → β → Prop} {l : List α}
    (h : ∀ a ∈ l, Yields I (f a) (R a)) : Yields I (l.mapM f) (List.Forall₂ R l) := by
  induction l with
  | nil => exact Yields.pure .nil
  | cons a l ih =>
    rw [List.mapM_cons]
    refine (h a List.mem_cons_self).bind fun b hb => ?_
    refine (ih fun a ha => h a (List.mem_cons_of_mem _ ha)).bind fun bs hbs => ?_
    exact Yields.pure (.cons hb hbs)

/-- A part of a result that is there on a condition only. -/
theorem optional {γ : Type} {g : α → β} {d : β} {rest : β → Referring γ} {Q : β → Prop}
    {R : γ → Prop} (h : Yields I x P) (hg : ∀ a, P a → Q (g a)) (hd : Q d)
    (hr : ∀ b, Q b → Yields I (rest b) R) (present : Bool) :
    Yields I (if present then do
        let b ← Pure.pure (g (← x))
        rest b
      else do
        let b ← Pure.pure d
        rest b) R := by
  split
  · exact h.bind fun a ha => (Yields.pure (hg a ha)).bind hr
  · exact (Yields.pure hd).bind hr

end Yields

/-- Two texts name the same classes, whatever has been imported, and their results are related. -/
def Alike {α β : Type} (R : α → β → Prop) (x : Referring α) (y : Referring β) : Prop :=
  ∀ i : Imports, R (x.run i).1 (y.run i).1 ∧ (x.run i).2 = (y.run i).2

namespace Alike

variable {α α' β β' : Type} {R : α → α' → Prop} {S : β → β' → Prop}

theorem pure {a : α} {a' : α'} (h : R a a') : Alike R (Pure.pure a) (Pure.pure a') :=
  fun _ => ⟨h, rfl⟩

theorem bind {x : Referring α} {x' : Referring α'} {f : α → Referring β} {f' : α' → Referring β'}
    (h : Alike R x x') (hf : ∀ a a', R a a' → Alike S (f a) (f' a')) :
    Alike S (x >>= f) (x' >>= f') := by
  intro i
  obtain ⟨hr, hi⟩ := h i
  have hnext := hf _ _ hr (x.run i).2
  rw [hi] at hnext
  change S ((f (x.run i).1).run (x.run i).2).1 ((f' (x'.run i).1).run (x'.run i).2).1 ∧
    ((f (x.run i).1).run (x.run i).2).2 = ((f' (x'.run i).1).run (x'.run i).2).2
  rwa [hi]

/-- Two texts that begin with the same one. -/
theorem after (x : Referring α) {f : α → Referring β} {f' : α → Referring β'}
    (hf : ∀ a, Alike S (f a) (f' a)) : Alike S (x >>= f) (x >>= f') :=
  fun i => hf (x.run i).1 (x.run i).2

theorem mapM {γ : Type} {f : γ → Referring β} {f' : γ → Referring β'} {l : List γ}
    (h : ∀ a ∈ l, Alike S (f a) (f' a)) : Alike (List.Forall₂ S) (l.mapM f) (l.mapM f') := by
  induction l with
  | nil => exact .pure .nil
  | cons a l ih =>
    rw [List.forall_mem_cons] at h
    rw [List.mapM_cons, List.mapM_cons]
    exact h.1.bind fun b b' hb => (ih h.2).bind fun bs bs' hbs => .pure (.cons hb hbs)

theorem eq {x x' : Referring α} (h : Alike Eq x x') : x = x' :=
  funext fun i => Prod.ext (h i).1 (h i).2

end Alike

theorem yields_isCalled (c : Java.ClassName) : Yields AnyImports (refer c) c.IsCalled :=
  fun i _ => ⟨i.reference_isCalled c, trivial⟩

end ProtoJava.Mapping
