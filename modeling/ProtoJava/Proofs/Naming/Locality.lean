import ProtoJava.Proofs.Naming.Renumbering
import ProtoJava.Proofs.Schema.Placing

/-! # Names of the files to generate

Files ask for names in the order in which they are to be generated, and all others after them. So
what a file is called depends on its own declarations and on the files to generate before it only.
-/

namespace ProtoJava.Naming

open Schema (Graph)

section Planned

variable {o : Options} {g g' : Graph} {generate order order' : List Nat} {i : Nat}
  {package converter : String}

theorem planningOrder_nodup (hd : generate.Nodup) : (planningOrder g generate).Nodup := by
  refine hd.append (List.nodup_range.filter _) fun i hi hi' => ?_
  simpa [hi] using (List.mem_filter.mp hi').2

theorem planningOrder_append (first rest : List Nat) : ∃ others,
    planningOrder g (first ++ rest) = first ++ others :=
  ⟨_, List.append_assoc ..⟩

/-- Where no file asks twice, each one has the names that follow from what it is given. -/
theorem allocate_of_granted (hd : generate.Nodup) (hi : i < g.files.length)
    (h : (i, package, converter) ∈ grantedFiles o g (planningOrder g generate)) :
    (allocate o g generate).file i = fileNames o.layout (g.file i) package converter := by
  obtain ⟨package', converter', h', hfile⟩ := allocate_file o generate hi
  have hkeys : ((grantedFiles o g (planningOrder g generate)).map (·.1)).Nodup := by
    rw [grantedFiles_keys]
    exact planningOrder_nodup hd
  obtain ⟨-, heq⟩ := Prod.mk.inj (List.inj_on_of_nodup_map hkeys h h' rfl)
  obtain ⟨rfl, rfl⟩ := Prod.mk.inj heq
  exact hfile

/-- Files with the same content are given the same names if they ask in the same order. -/
theorem grantedFiles_congr
    (h : List.Forall₂ (fun i i' => (g'.file i').core = (g.file i).core) order order') :
    (grantedFiles o g' order').map (·.2) = (grantedFiles o g order).map (·.2) := by
  have hrequests : ∀ {α : Type} (read : Schema.File → α), (∀ f, read f.core = read f) →
      order'.map (fun i => read (g'.file i)) = order.map fun i => read (g.file i) := by
    intro α read hread
    rw [← List.forall₂_eq_eq_eq, List.forall₂_map_left_iff, List.forall₂_map_right_iff]
    exact h.flip.imp fun i' i hcore => Schema.File.of_core read hread hcore
  rw [grantedFiles_names, grantedFiles_names,
    hrequests (packageRequest o) fun f => packageRequest_core f o,
    hrequests converterRequest converterRequest_core]

/-- Files with the same content are each given the same if they ask in the same order. -/
theorem exists_granted {R : Nat → Nat → Prop} (h : List.Forall₂ R order order')
    (hcore : ∀ i i', R i i' → (g'.file i').core = (g.file i).core) :
    List.Forall₂ (fun i i' => R i i' ∧ ∃ package converter,
      (i, package, converter) ∈ grantedFiles o g order ∧
        (i', package, converter) ∈ grantedFiles o g' order') order order' := by
  have hzip : ∀ (g : Graph) order, grantedFiles o g order =
      order.zip ((grantedFiles o g order).map (·.2)) := by
    intro g order
    rw [grantedFiles_names]
    rfl
  have hgiven := grantedFiles_congr (o := o) (h.imp hcore)
  have hlength : order.length ≤ ((grantedFiles o g order).map (·.2)).length := by
    simp [grantedFiles, Registry.claimAll_length]
  rw [hzip g, hzip g', hgiven]
  refine (forall₂_zip h hlength).imp ?_
  rintro i i' ⟨hr, ⟨package, converter⟩, hmem, hmem'⟩
  exact ⟨hr, package, converter, hmem, hmem'⟩

/-- The first files to generate have the names that follow from what they are given on their own. -/
theorem allocate_of_granted_first {first rest : List Nat} (hd : (first ++ rest).Nodup)
    (hi : i < g.files.length) (h : (i, package, converter) ∈ grantedFiles o g first) :
    (allocate o g (first ++ rest)).file i = fileNames o.layout (g.file i) package converter := by
  obtain ⟨others, horder⟩ := planningOrder_append (g := g) first rest
  obtain ⟨more, -, hmore⟩ := grantedFiles_append o g first others
  apply allocate_of_granted hd hi
  rw [horder, hmore]
  exact List.mem_append_left _ h

/-- The first file to generate is given the package that it asks for. -/
theorem exists_granted_head (o : Options) (g : Graph) (i : Nat) (rest : List Nat) :
    ∃ converter, (i, packageRequest o (g.file i), converter) ∈ grantedFiles o g (i :: rest) := by
  have hfree : Registry.empty.answer (packageRequest o (g.file i)) = packageRequest o (g.file i) :=
    Registry.answer_of_free rfl
  simp only [grantedFiles, List.map_cons, Registry.claimAll_cons, hfree, List.zip_cons_cons]
  exact ⟨_, List.mem_cons_self⟩

end Planned

section Local

variable {raws raws' : List Descriptor.File} {g g' : Graph}

theorem describes_file (hg : Graph.build raws = .ok g) {i : Nat} {raw : Descriptor.File}
    (hi : raws[i]? = some raw) : i < g.files.length ∧ Schema.File.Describes raw (g.file i) := by
  obtain ⟨hlt, rfl⟩ := List.getElem?_eq_some_iff.mp hi
  have hlt' : i < g.files.length := by rwa [Graph.build_length hg]
  rw [Graph.file_eq_getElem hlt']
  exact ⟨hlt', (List.forall₂_iff_get.mp (Graph.build_describes hg)).2 i hlt hlt'⟩

/-- The files of a request that are to be generated are called the same whatever the other files
are, wherever any of them stand, and whatever is to be generated after them. The first one gets the
package that it asks for. -/
theorem allocate_local (hg : Graph.build raws = .ok g) (hg' : Graph.build raws' = .ok g')
    (o : Options) {first first' rest rest' : List Nat} (hd : (first ++ rest).Nodup)
    (hd' : (first' ++ rest').Nodup)
    (hsame : List.Forall₂ (fun i i' => ∃ raw, raws[i]? = some raw ∧ raws'[i']? = some raw)
      first first') :
    List.Forall₂ (fun i i' => (allocate o g' (first' ++ rest')).file i' =
      (allocate o g (first ++ rest)).file i) first first' ∧
    ∀ i ∈ first.head?, ((allocate o g (first ++ rest)).file i).beanPackage =
      packageRequest o (g.file i) := by
  have hfiles : List.Forall₂ (fun i i' => i < g.files.length ∧ i' < g'.files.length ∧
      (g'.file i').core = (g.file i).core) first first' := by
    refine hsame.imp fun i i' ⟨raw, hi, hi'⟩ => ?_
    obtain ⟨hlt, h⟩ := describes_file hg hi
    obtain ⟨hlt', h'⟩ := describes_file hg' hi'
    exact ⟨hlt, hlt', Schema.File.of_own (·.core) (fun _ => rfl) (h.own_eq h')⟩
  refine ⟨(exists_granted (o := o) hfiles fun i i' h => h.2.2).imp ?same, fun i hi => ?head⟩
  case same =>
    rintro i i' ⟨⟨hlt, hlt', hcore⟩, package, converter, h, h'⟩
    rw [allocate_of_granted_first hd' hlt' h', allocate_of_granted_first hd hlt h]
    exact Schema.File.of_core (fileNames o.layout · package converter)
      (fun f => fileNames_core o.layout f package converter) hcore
  case head =>
    obtain ⟨tail, rfl⟩ := List.head?_eq_some_iff.mp hi
    obtain ⟨converter, h⟩ := exists_granted_head o g i tail
    obtain ⟨i', -, hlt, -⟩ := forall₂_exists hfiles List.mem_cons_self
    rw [allocate_of_granted_first hd hlt h, fileNames]

end Local

/-- Files of one package, two of which are to be generated. -/
def shelf : List Descriptor.File := [
  { name := "base.proto", package := "shelf", messages := [{ name := "Base" }] },
  { name := "book.proto", package := "shelf", messages := [{ name := "Book" }] },
  { name := "disc.proto", package := "shelf", messages := [{ name := "Disc" }] }]

/-- The same two files among others. -/
def movedShelf : List Descriptor.File := [
  { name := "disc.proto", package := "shelf", messages := [{ name := "Disc" }] },
  { name := "base.proto", package := "shelf", messages := [{ name := "Basis" }] },
  { name := "book.proto", package := "shelf", messages := [{ name := "Book" }] },
  { name := "game.proto", package := "shelf" }]

theorem allocate_local_shelf :
    let o : Options := ⟨"bean", "bean.converter", .type, false⟩
    ∃ g g', Graph.build shelf = .ok g ∧ Graph.build movedShelf = .ok g' ∧
      (allocate o g' [2, 0, 3]).file 2 = (allocate o g [1, 2]).file 1 ∧
      (allocate o g' [2, 0, 3]).file 0 = (allocate o g [1, 2]).file 2 ∧
      ((allocate o g [1, 2]).file 1).beanPackage = "bean.shelf" ∧
      ((allocate o g [1, 2]).file 2).beanPackage = "bean.shelf1" := by
  intro o
  let g := (Graph.build shelf).toOption.getD default
  let g' := (Graph.build movedShelf).toOption.getD default
  have hg : Graph.build shelf = .ok g := rfl
  have hg' : Graph.build movedShelf = .ok g' := rfl
  have hfiles : List.Forall₂ (fun i i' => ∃ raw, shelf[i]? = some raw ∧ movedShelf[i']? = some raw)
      [1, 2] [2, 0] := .cons ⟨_, rfl, rfl⟩ (.cons ⟨_, rfl, rfl⟩ .nil)
  have hd : ([1, 2] ++ []).Nodup := by decide
  have hd' : ([2, 0] ++ [3]).Nodup := by decide
  obtain ⟨hsame, hhead⟩ := allocate_local hg hg' o hd hd' hfiles
  obtain ⟨hbook, hrest⟩ := List.forall₂_cons.mp hsame
  obtain ⟨hdisc, -⟩ := List.forall₂_cons.mp hrest
  have hpackage : packageRequest o (g.file 1) = "bean.shelf" := by decide +kernel
  exact ⟨g, g', hg, hg', hbook, hdisc, (hhead 1 rfl).trans hpackage, by decide +kernel⟩

end ProtoJava.Naming
