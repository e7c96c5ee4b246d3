import ProtoJava.Proofs.Naming.Collisions
import ProtoJava.Proofs.Schema.Spelled

/-! # Names of wrappers

In the layout with one source file for each schema file, a wrapper class is around all others. The
classes directly in it are called otherwise. What is declared deeper down is named without regard
to the wrapper, and may be called like it.
-/

namespace ProtoJava.Naming

open Schema (File Graph MessageId)

/-- The names of the classes directly in the wrapper of a file. -/
def Allocation.directNames (a : Allocation) (g : Graph) (i : Nat) : List String :=
  let f := g.file i
  ((f.topMessages.filter fun j => !(f.message j).mapEntry).map fun j =>
      (a.message ⟨i, j⟩).className) ++
    (f.topEnums.map fun j => (a.enumNames ⟨i, j⟩).className) ++
    (a.file i).extensionsClass.toList

theorem Allocation.topNames_eq_append (a : Allocation) (g : Graph) (i : Nat) :
    a.topNames g i = a.directNames g i ++ (a.file i).wrapperClass.toList := by
  rw [Allocation.topNames, Allocation.directNames]

section Wrappers

variable {raws : List Descriptor.File} {g : Graph} {o : Options} {generate : List Nat} {i : Nat}

/-- A class in a message is called by a variant of a name that is asked for there. -/
theorem isVariant_of_mem_innerNames {id : MessageId} (hl : (g.file id.file).Linked)
    (hi : id.index < (g.file id.file).messages.length) {x : String}
    (h : x ∈ (allocate o g generate).innerNames g id) :
    ∃ request ∈ scopeRequests (g.file id.file) id.index, IsVariant request.2 x := by
  rw [innerNames_eq hl hi, Classes.scopeOf_some hi] at h
  obtain ⟨role, hr, rfl⟩ := List.mem_map.mp h
  have hasked := mem_scopeRequests (hl.message_numbered hi) hr
  obtain ⟨name, hm, hv⟩ := Registry.grant_isVariant (nameFor_mem_grant hasked)
  exact ⟨_, hm, hv⟩

/-- The wrapper of a file is called unlike any class directly in it, and like a class in a message
only where that message asks for the name, up to a number after it. -/
theorem wrapper_reused_only_if_asked (hg : Graph.build raws = .ok g) (ho : o.layout = .file)
    (generate : List Nat) (hi : i < g.files.length) :
    ∃ wrapper, ((allocate o g generate).file i).wrapperClass = some wrapper ∧
      wrapper ∉ (allocate o g generate).directNames g i ∧
      ∀ p < (g.file i).messages.length, wrapper ∈ (allocate o g generate).innerNames g ⟨i, p⟩ →
        ∃ request ∈ scopeRequests (g.file i) p, IsVariant request.2 wrapper := by
  have hl := Graph.build_linked hg i
  have hfits : ((allocate o g generate).file i).Fits o.layout (g.file i) := allocate_fits hl hi
  obtain ⟨wrapper, hw⟩ : ∃ wrapper, ((allocate o g generate).file i).wrapperClass = some wrapper :=
    Option.isSome_iff_exists.mp (by rw [hfits.wrapperClass, ho]; rfl)
  have htop : Distinct [] ((allocate o g generate).topNames g i) := topNames_distinct hl hi
  have hsplit : (allocate o g generate).topNames g i =
      (allocate o g generate).directNames g i ++ [wrapper] := by
    rw [Allocation.topNames_eq_append, hw, Option.toList_some]
  rw [hsplit] at htop
  refine ⟨wrapper, hw, fun hm => ?direct, fun p hp hm => ?inner⟩
  case direct => exact List.disjoint_of_nodup_append htop.1 hm List.mem_cons_self
  case inner =>
    let message : MessageId := ⟨i, p⟩
    exact isVariant_of_mem_innerNames (show (g.file message.file).Linked from hl) hp hm

/-- A file with a message named like its wrapper, in another message. -/
def wrapped : Descriptor.File where
  name := "a.proto"
  package := "p"
  messages := [{ name := "M", nested := [{ name := "ABeans" }] }]

theorem wrapper_reused_only_if_asked_wrapped :
    ∃ g wrapper, Graph.build [wrapped] = .ok g ∧
      ((allocate ⟨"p", "p.converter", .file, false⟩ g [0]).file 0).wrapperClass = some wrapper ∧
      wrapper ∉ (allocate ⟨"p", "p.converter", .file, false⟩ g [0]).directNames g 0 ∧
      ∀ p < (g.file 0).messages.length,
        wrapper ∈ (allocate ⟨"p", "p.converter", .file, false⟩ g [0]).innerNames g ⟨0, p⟩ →
          ∃ request ∈ scopeRequests (g.file 0) p, IsVariant request.2 wrapper := by
  let g := (Graph.build [wrapped]).toOption.getD default
  have hg : Graph.build [wrapped] = .ok g := rfl
  obtain ⟨wrapper, hw, hd, hi⟩ := wrapper_reused_only_if_asked
    (o := ⟨"p", "p.converter", .file, false⟩) hg rfl [0] (show 0 < g.files.length by decide)
  exact ⟨g, wrapper, hg, hw, hd, hi⟩

/-- A class in a message can have the name of the wrapper around it. -/
theorem wrapper_reused :
    ∃ g, Graph.build [wrapped] = .ok g ∧ g.Spelled ∧ (g.file 0).Shown 1 ∧
      ((allocate ⟨"p", "p.converter", .file, false⟩ g [0]).file 0).wrapperClass =
        some ((allocate ⟨"p", "p.converter", .file, false⟩ g [0]).message ⟨0, 1⟩).className := by
  refine ⟨(Graph.build [wrapped]).toOption.getD default, rfl, ?_, ?_, ?_⟩
  · decide +kernel
  · exact .nested (p := 0) (by decide) rfl rfl (.top (by decide) rfl rfl)
  · decide +kernel

end Wrappers

end ProtoJava.Naming
