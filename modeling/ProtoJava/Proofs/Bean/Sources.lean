import ProtoJava.Proofs.Bean.Declarations
import ProtoJava.Proofs.Java.BareLines

/-! # Source files of beans

The drafts of a file are written without failure, so each source file has the lines of its prologue
and those of its steps.
-/

namespace ProtoJava.Bean

open Java
open Mapping

theorem Contents.drafts_sound (c : Contents) (ctx : Context) (wrapper : Option String) :
    ∀ d ∈ c.drafts ctx wrapper, Yields AnyImports d.steps SoundAll := by
  have hsound : ∀ {steps : Mapping.Referring (List Step)} {ls : List Label},
      Yields AnyImports steps (fun steps => Marked steps ls) → Yields AnyImports steps SoundAll :=
    fun h i hi => ⟨(h i hi).1.sound, trivial⟩
  intro d hd
  cases wrapper with
  | none =>
    simp only [Contents.drafts, List.mem_append, List.mem_map] at hd
    rcases hd with (⟨o, -, rfl⟩ | ⟨e, -, rfl⟩) | ⟨p, -, rfl⟩
    · exact hsound (messageSteps_marked ctx c.file "public " o)
    · exact hsound (Yields.pure (marked_enumSteps c.file e))
    · exact hsound (Yields.pure (marked_holderSteps c.file "public " p.1 p.2))
  | some wrapper =>
    simp only [Contents.drafts] at hd
    split at hd
    · exact absurd hd List.not_mem_nil
    · obtain rfl := List.mem_singleton.mp hd
      exact hsound (wrapperSteps_marked ctx c wrapper)

/-- The lines of the source file of a draft: those of its prologue and of its steps. -/
def Draft.lines (d : Draft) (c : Contents) : List String :=
  let written := d.steps.run { package := c.package, own := [d.className], nested := d.nested }
  bareLines (prologue c.package c.file written.2).toList ++ bareOf remarkLines written.1

theorem Draft.bareLines_sourceFile {d : Draft} (c : Contents)
    (hs : Yields AnyImports d.steps SoundAll) :
    bareLines (sourceFile c d.className d.nested d.steps).content.toList = d.lines c := by
  rw [sourceFile_eq]
  exact Artifact.assemble_bareLines _ _ (whole_unlines _) (hs _ trivial).1

end ProtoJava.Bean
