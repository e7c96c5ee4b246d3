import Mathlib.Logic.Function.Basic
import ProtoJava.Proofs.Schema.References

/-! # Renumbered graphs

The place of a file in a graph is a number that its types are called by. Two graphs that have the
same files in different places have the same messages and enums, under other numbers.
-/

namespace ProtoJava.Schema

/-- What a file declares, without its place in the graph, its comments, and what it hands on. -/
def File.core (f : File) : File :=
  { f with id := 0, comments := [], reexports := [] }

/-- What is read off the core of a file is the same in files with the same core. -/
theorem File.of_core {α : Type} (read : File → α) (hread : ∀ f, read f.core = read f) {f f' : File}
    (h : f'.core = f.core) : read f' = read f := by
  rw [← hread f', h, hread]

section Numbers

variable (ρ : Nat → Nat)

def MessageId.renumber (id : MessageId) : MessageId :=
  ⟨ρ id.file, id.index⟩

def EnumId.renumber (id : EnumId) : EnumId :=
  ⟨ρ id.file, id.index⟩

def TypeRef.renumber : TypeRef → TypeRef
  | .message id => .message (id.renumber ρ)
  | .enum id => .enum (id.renumber ρ)

end Numbers

@[simp]
theorem File.enclosing_core (f : File) (i : Nat) : f.core.enclosing i = f.enclosing i := by
  induction i using Nat.strongRecOn with
  | ind i ih =>
    rw [File.enclosing, File.enclosing]
    have hparent : (f.core.message i).parent = (f.message i).parent := rfl
    rw [hparent]
    split
    · rfl
    · split
      · next hlt => rw [ih _ hlt]
      · rfl

/-- The files of `g` stand in `g'` as well, under other numbers. -/
structure Graph.Renumbers (ρ : Nat → Nat) (g g' : Graph) : Prop where
  injective : Function.Injective ρ
  core : ∀ i, (g'.file (ρ i)).core = (g.file i).core

namespace Graph.Renumbers

variable {ρ : Nat → Nat} {g g' : Graph} (h : g.Renumbers ρ g')

include h

theorem of_core {α : Type} (read : File → α) (hread : ∀ f, read f.core = read f) (i : Nat) :
    read (g'.file (ρ i)) = read (g.file i) :=
  File.of_core read hread (h.core i)

theorem message (id : MessageId) : g'.message (id.renumber ρ) = g.message id :=
  h.of_core (·.message id.index) (fun _ => rfl) id.file

theorem enumType (id : EnumId) : g'.enumType (id.renumber ρ) = g.enumType id :=
  h.of_core (·.enumType id.index) (fun _ => rfl) id.file

theorem enclosing (i j : Nat) : (g'.file (ρ i)).enclosing j = (g.file i).enclosing j :=
  h.of_core (·.enclosing j) (fun f => f.enclosing_core j) i

end Graph.Renumbers

/-- The names that a field refers to are found in both indexes, as the same types under other
numbers, or in neither. -/
structure Index.Agree (ρ : Nat → Nat) (ix ix' : Index) (f : Field) : Prop where
  typeName : f.type.isNamed →
    ix'.resolve f.typeName = (ix.resolve f.typeName).map (TypeRef.renumber ρ)
  extendee : ∀ name ∈ f.extendee, ix'.resolve name = (ix.resolve name).map (TypeRef.renumber ρ)

section Resolving

variable {ρ : Nat → Nat} {ix ix' : Index} {name : String}

theorem Index.resolveMessage_renumber
    (h : ix'.resolve name = (ix.resolve name).map (TypeRef.renumber ρ)) :
    ix'.resolveMessage name = (ix.resolveMessage name).map (MessageId.renumber ρ) := by
  rw [Index.resolveMessage, Index.resolveMessage, h]
  cases ix.resolve name with
  | error e => rfl
  | ok ref => cases ref <;> rfl

theorem Index.resolveEnum_renumber
    (h : ix'.resolve name = (ix.resolve name).map (TypeRef.renumber ρ)) :
    ix'.resolveEnum name = (ix.resolveEnum name).map (EnumId.renumber ρ) := by
  rw [Index.resolveEnum, Index.resolveEnum, h]
  cases ix.resolve name with
  | error e => rfl
  | ok ref => cases ref <;> rfl

end Resolving

end ProtoJava.Schema
