import ProtoJava.Proofs.Bean.Nesting
import ProtoJava.Proofs.Drafts
import ProtoJava.Proofs.Mapping.Shapes

/-! # Sums over the contents of a file

What is added up over the outlines and enums of a file is added up once for each message and each
enum that is shown.
-/

namespace ProtoJava.Bean

open Mapping

variable {ctx : Context} {file : Nat} {c : Contents}

/-- In the contents of a file every message that is shown has an outline. -/
theorem Contents.exists_outline (hl : (ctx.graph.file file).Linked)
    (h : Contents.of ctx file = .ok c) {i : Nat} (hi : (ctx.graph.file file).Shown i) :
    ∃ o, Outline.of ctx file i = .ok o := by
  obtain ⟨-, hm, -⟩ := Contents.of_ok h
  induction hi with
  | top hi hne hp =>
    have htop := Schema.File.mem_topMessages_iff.mpr ⟨hi, hp⟩
    obtain ⟨o, -, ho⟩ := forall₂_exists hm (List.mem_filter.mpr ⟨htop, by simp [hne]⟩)
    exact ⟨o, ho⟩
  | nested hi hne hp hs ih =>
    obtain ⟨o, ho⟩ := ih
    obtain ⟨_, _, nested, -, -, hn, -⟩ := Outline.of_ok ho
    have hmem := (hl.mem_nestedClasses_iff hs).mpr ⟨.nested hi hne hp hs, hp⟩
    obtain ⟨o, -, ho⟩ := forall₂_exists hn hmem
    exact ⟨o, ho⟩

theorem extensionsOf_nil {ctx : Context} {m : Option Schema.Message}
    {names : List Naming.ExtensionNames} {extensions : List Extension}
    (h : extensionsOf ctx m [] names = .ok extensions) : extensions = [] := by
  have hnone : [] = extensions := by simpa [extensionsOf, pure_eq_ok_iff] using h
  exact hnone.symm

/-- The extensions of a file itself are in a class of their own, if there are any. -/
theorem Contents.holder_eq {layout : Layout}
    (hfits : (ctx.names.file file).Fits layout (ctx.graph.file file))
    (h : Contents.of ctx file = .ok c) : ∃ extensions,
      extensionsOf ctx none (ctx.graph.file file).extensions (ctx.names.file file).extensions =
        .ok extensions ∧
      ∀ {α : Type} (g : Extension → α),
        c.holder.toList.flatMap (·.2.map g) = extensions.map g := by
  obtain ⟨extensions, -, hx, -, -, hh⟩ := Contents.of_ok h
  refine ⟨extensions, hx, fun g => ?_⟩
  rw [hh]
  cases hclass : (ctx.names.file file).extensionsClass with
  | some name => simp
  | none =>
    have hempty := hfits.extensionsClass
    rw [hclass] at hempty
    have hnil : (ctx.graph.file file).extensions = [] := by simpa using hempty.symm
    rw [hnil] at hx
    rw [extensionsOf_nil hx]
    rfl

section Sums

variable {M : Type} [AddCancelCommMonoid M] (tree : Outline → M) (enum : EnumShape → M)

/-- What is added up over the tree of an outline, if there is one. -/
def treeAt (ctx : Context) (file i : Nat) : M :=
  match Outline.of ctx file i with
  | .ok o => tree o
  | .error _ => 0

theorem sum_treeAt {is : List Nat} {os : List Outline}
    (h : List.Forall₂ (fun i o => Outline.of ctx file i = .ok o) is os) :
    (os.map tree).sum = (is.map (treeAt tree ctx file)).sum := by
  induction h with
  | nil => rfl
  | cons h _ ih => simp [treeAt, h, ih]

/-- What is added up over the contents of a file is added up over the messages and enums of the file
that are shown. -/
theorem Contents.sum_eq {own : Shape → List Extension → M} (htree : ∀ shape extensions enums nested,
      tree (.node shape extensions enums nested) =
        own shape extensions + (enums.map enum).sum + (nested.map tree).sum)
    (hl : (ctx.graph.file file).Linked) (h : Contents.of ctx file = .ok c) {ownAt : Nat → M}
    (hown : ∀ i, (ctx.graph.file file).Shown i → ∀ shape extensions,
      Shape.of ctx ⟨file, i⟩ = .ok shape →
      extensionsOf ctx (some shape.message) shape.message.extensions shape.names.extensions =
        .ok extensions → own shape extensions = ownAt i) :
    (c.messages.map tree).sum + (c.enums.map enum).sum =
      ((ctx.graph.file file).shownMessages.map ownAt).sum +
        ((ctx.graph.file file).shownEnums.map fun e => enum (EnumShape.of ctx file e)).sum := by
  obtain ⟨extensions, hm, -, -, he, -⟩ := Contents.of_ok h
  have hmessages : (c.messages.map tree).sum = ((ctx.graph.file file).shownMessages.map fun i =>
      ownAt i + ((((ctx.graph.file file).message i).enums.map fun e =>
        enum (EnumShape.of ctx file e)).sum)).sum := by
    rw [sum_treeAt tree hm]
    refine hl.sum_messages fun i hi => ?_
    obtain ⟨o, ho⟩ := Contents.exists_outline hl h hi
    obtain ⟨shape, extensions, nested, hs, hx, hn, rfl⟩ := Outline.of_ok ho
    have hmessage : shape.message = (ctx.graph.file file).message i := Shape.of_message hs
    rw [treeAt, ho]
    dsimp only
    rw [htree, hown i hi shape extensions hs hx, sum_treeAt tree hn, hmessage, List.map_map]
    rfl
  rw [hmessages, he, List.map_map, List.sum_map_add, ← hl.sum_enums, add_assoc]
  congr 1
  exact add_comm _ _

end Sums

end ProtoJava.Bean
