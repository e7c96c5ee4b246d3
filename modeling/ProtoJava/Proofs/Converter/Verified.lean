import ProtoJava.Proofs.Converter.Balanced
import ProtoJava.Proofs.Java.Verified

/-! # Verified converters

The source file with a converter passes its verification.
-/

namespace ProtoJava.Converter

open Java
open Mapping

theorem converter_verify {ctx : Context} {file : Nat} (hctx : ctx.Proper)
    (hf : (ctx.names.file file).Proper) (hfile : file < ctx.graph.files.length) {a : Artifact}
    (h : converter ctx file = .ok (some a)) : a.verify = .ok () := by
  have hspelled := hctx.spelled _ (Schema.Graph.file_of_lt hfile)
  let s : Site := { toContext := ctx, file }
  rw [converter] at h
  dsimp only at h
  split at h
  · exact absurd h (by rintro ⟨⟩)
  · obtain ⟨shapes, hshapes, h⟩ := bind_eq_ok_iff.mp h
    obtain rfl := Option.some.inj (pure_eq_ok_iff.mp h)
    have hproper : ∀ p ∈ shapes, p.2.Proper := by
      rw [mapM_eq_ok_iff] at hshapes
      intro p hp
      obtain ⟨i, hi, hok⟩ := forall₂_exists_right hshapes hp
      simp only [bind_eq_ok_iff, pure_eq_ok_iff] at hok
      obtain ⟨shape, hshape, rfl⟩ := hok
      have hi := List.mem_range.mp (List.mem_of_mem_filter hi)
      exact (Shape.of_proper hctx hi hshape).1
    have htidy : Imports.Tidy { package := ctx.options.converterPackage
                                own := [(ctx.names.file file).converterClass] } := by
      simp [Imports.Tidy]
    have hsteps := classSteps_balances (s := s) hctx hf.converterClass hproper
    obtain ⟨hbalanced, himports⟩ := hsteps _ htidy
    exact verify_assemble hctx.converterPackage hf.converterClass hspelled.name himports
      (hbalanced []) _

end ProtoJava.Converter
