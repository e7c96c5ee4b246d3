import ProtoJava.Proofs.Naming.Enclosure

/-! # Outermost classes

The outermost class around that of a type is the wrapper of its file, or that of the type at the top
of the file which it is declared in. Its name was granted, so that it is not reserved; but a map
entry at the top is granted none.
-/

namespace ProtoJava

namespace Schema

/-- The last of the messages around a declaration is at the top of its file. -/
theorem File.Climbs.top {f : File} {p : Option Nat} {is : List Nat} (h : f.Climbs p is) :
    ∀ i ∈ is.getLast?, i < f.messages.length ∧ (f.message i).parent = none := by
  induction h with
  | done => simp
  | @step i is hi hc ih =>
    cases is with
    | nil =>
      have hparent : (f.message i).parent = none := by
        generalize (f.message i).parent = parent at hc
        cases hc
        rfl
      intro j hj
      obtain rfl : i = j := Option.some.inj hj
      exact ⟨hi, hparent⟩
    | cons j is =>
      rw [List.getLast?_cons_cons]
      exact ih

end Schema

namespace Naming

open Schema (Graph TypeRef MessageId)

/-- The type at the top of a file that a type is declared in, or the type itself. -/
def rootOf (g : Graph) (t : TypeRef) : TypeRef :=
  (((g.file (fileOf t)).outward (g.parentOf t)).getLast?.map fun i =>
    TypeRef.message ⟨fileOf t, i⟩).getD t

section Roots

variable {raws : List Descriptor.File} {g : Graph} {o : Options} {generate : List Nat}
  {t : TypeRef}

theorem rootOf_top (hg : Graph.build raws = .ok g) (ht : g.Has t) :
    fileOf (rootOf g t) = fileOf t ∧ g.Has (rootOf g t) ∧ g.parentOf (rootOf g t) = none := by
  have hclimbs := ((Graph.build_linked hg (fileOf t)).climbs_iff (parentOf_lt hg ht)).mpr rfl
  rw [rootOf]
  cases hlast : ((g.file (fileOf t)).outward (g.parentOf t)).getLast? with
  | none =>
    rw [Option.map_none, Option.getD_none]
    rw [List.getLast?_eq_none_iff.mp hlast] at hclimbs
    refine ⟨rfl, ht, ?_⟩
    generalize g.parentOf t = parent at hclimbs
    cases hclimbs
    rfl
  | some i =>
    rw [Option.map_some, Option.getD_some]
    obtain ⟨hi, hparent⟩ := hclimbs.top i hlast
    exact ⟨rfl, ⟨fileOf_lt ht, hi⟩, hparent⟩

theorem outermost_typeClass (a : Allocation) (g : Graph) (t : TypeRef) :
    (a.typeClass g t).outermost =
      ((a.file (fileOf t)).wrapperClass).getD (a.className (rootOf g t)) := by
  rw [Java.ClassName.outermost, typeClass_path, around_outward, rootOf, List.append_assoc]
  cases (a.file (fileOf t)).wrapperClass with
  | some wrapper => rfl
  | none =>
    rw [Option.toList_none, List.nil_append, Option.getD_none]
    rcases List.eq_nil_or_concat ((g.file (fileOf t)).outward (g.parentOf t)) with h | ⟨is, i, h⟩
    · rw [h]
      rfl
    · rw [h, List.concat_eq_append, List.reverse_concat, List.getLast?_concat]
      rfl

/-- A map entry is granted no name. -/
theorem messageName_of_mapEntry {layout : Layout} {f : Schema.File} (hl : f.Linked) {i : Nat}
    (he : (f.message i).mapEntry) :
    messageName f (Classes.of layout f).types i = (f.message i).name := by
  have hnone : (Classes.of layout f).types.lookup (.message i) = none := by
    apply lookup_eq_none
    intro hmem
    obtain ⟨⟨role, x⟩, hx, rfl⟩ := List.mem_map.mp hmem
    obtain ⟨p, name, hp, hrequest, -⟩ := Classes.exists_request hx
    have hrole := List.mem_map_of_mem (f := (·.1)) hrequest
    have hdeclared : (ClassRole.message i).Declared f := by
      cases p with
      | none => exact ((mem_topRequests_iff rfl).mp hrole).1
      | some k => exact ((mem_scopeRequests_iff hl (hp k rfl) rfl).mp hrole).1
    exact Bool.noConfusion (hdeclared.2.symm.trans he)
  rw [messageName, hnone, Option.getD_none]

variable (hg : Graph.build raws = .ok g)

include hg

/-- A type at the top has a granted name, or is a map entry under its own name. -/
theorem mem_topNames (ht : g.Has t) (hp : g.parentOf t = none) :
    (allocate o g generate).className t ∈ (allocate o g generate).topNames g (fileOf t) ∨
      ∃ id, t = .message id ∧ (g.message id).mapEntry ∧
        (allocate o g generate).className t = (g.message id).name := by
  cases t with
  | enum id =>
    have htop : id.index ∈ (g.file id.file).topEnums :=
      Schema.File.mem_topEnums_iff.mpr ⟨ht.2, hp⟩
    refine Or.inl ?_
    simp only [Allocation.topNames, List.mem_append]
    exact Or.inl (Or.inl (Or.inr (List.mem_map_of_mem (f := fun j =>
      ((allocate o g generate).enumNames ⟨id.file, j⟩).className) htop)))
  | message id =>
    cases he : (g.message id).mapEntry with
    | true =>
      refine Or.inr ⟨id, rfl, he, ?_⟩
      rw [Allocation.className, allocate_className ht.2]
      exact messageName_of_mapEntry (Graph.build_linked hg id.file) he
    | false =>
      have htop : id.index ∈ (g.file id.file).topMessages.filter fun j =>
          !((g.file id.file).message j).mapEntry := by
        refine List.mem_filter.mpr ⟨Schema.File.mem_topMessages_iff.mpr ⟨ht.2, hp⟩, ?_⟩
        exact Bool.not_eq_eq_eq_not.mpr he
      refine Or.inl ?_
      simp only [Allocation.topNames, List.mem_append]
      exact Or.inl (Or.inl (Or.inl (List.mem_map_of_mem (f := fun j =>
        ((allocate o g generate).message ⟨id.file, j⟩).className) htop)))

/-- The outermost class around that of a type has a reserved name only without a wrapper, and then
it is that of a map entry. -/
theorem reserved_outermost (ht : g.Has t)
    (hr : isReserved ((allocate o g generate).typeClass g t).outermost) :
    o.layout = .type ∧ ∃ id, rootOf g t = .message id ∧ (g.message id).mapEntry ∧
      ((allocate o g generate).typeClass g t).outermost = (g.message id).name := by
  have hl := Graph.build_linked hg (fileOf t)
  have hfits : ((allocate o g generate).file (fileOf t)).Fits o.layout (g.file (fileOf t)) :=
    allocate_fits hl (fileOf_lt ht)
  have hfree : ∀ x ∈ (allocate o g generate).topNames g (fileOf t), isReserved x = false :=
    fun x hx => ((topNames_distinct hl (fileOf_lt ht)).2 x hx).2
  have houter := outermost_typeClass (allocate o g generate) g t
  rw [houter] at hr ⊢
  cases hw : ((allocate o g generate).file (fileOf t)).wrapperClass with
  | some wrapper =>
    have htop : wrapper ∈ (allocate o g generate).topNames g (fileOf t) := by
      simp [Allocation.topNames, hw]
    rw [hw, Option.getD_some, hfree wrapper htop] at hr
    exact Bool.noConfusion hr
  | none =>
    rw [hw, Option.getD_none] at hr
    have hlayout : o.layout = .type := by
      have hwrapper := hfits.wrapperClass
      rw [hw] at hwrapper
      cases ho : o.layout with
      | type => rfl
      | file => simp [ho] at hwrapper
    refine ⟨hlayout, ?_⟩
    obtain ⟨hfile, hroot, hparent⟩ := rootOf_top hg ht
    have hnamed : (allocate o g generate).className (rootOf g t) ∈
          (allocate o g generate).topNames g (fileOf (rootOf g t)) ∨ _ :=
      mem_topNames hg hroot hparent
    rcases hnamed with htop | ⟨id, hid, he, hname⟩
    · rw [hfile] at htop
      rw [hfree _ htop] at hr
      exact Bool.noConfusion hr
    · exact ⟨id, hid, he, hname⟩

end Roots

end Naming

end ProtoJava
