import Mathlib.Data.List.GetD
import Mathlib.Logic.Relation
import ProtoJava.Proofs.Schema.Placing

/-! # Public imports

A file hands on the types of the files that it imports publicly itself. What those hand on in turn
gets lost, so everything behind chains of public imports is handed on just if each file there with
some types is imported publicly right away.
-/

namespace ProtoJava.Schema

/-- The first file of a name is the one at position `v`. -/
def FirstNamed (raws : List Descriptor.File) (name : String) (v : Nat) : Prop :=
  (∃ raw, raws[v]? = some raw ∧ raw.name = name) ∧
    ∀ w raw, w < v → raws[w]? = some raw → raw.name ≠ name

/-- A public import of file `u` names file `v`. -/
def ImportsPublicly (raws : List Descriptor.File) (u v : Nat) : Prop :=
  ∃ (raw : Descriptor.File) (n : Nat) (name : String), raws[u]? = some raw ∧
    (n : Int) ∈ raw.publicDependencies ∧ raw.dependencies[n]? = some name ∧
    FirstNamed raws name v

/-- File `v` declares a type that is no map entry. -/
inductive Exports (g : Graph) (v : Nat) : TypeRef → Prop
  | message {i : Nat} : i < (g.file v).messages.length → ((g.file v).message i).mapEntry = false →
      Exports g v (.message ⟨v, i⟩)
  | enum {i : Nat} : i < (g.file v).enums.length → Exports g v (.enum ⟨v, i⟩)

section Exported

variable {g g' : Graph} {raws : List Descriptor.File} {raw : Descriptor.File} {name : String}
  {u v : Nat} {ref : TypeRef}

/-- A type is exported by the file that declares it only. -/
theorem Exports.unique {w : Nat} (h : Exports g v ref) (h' : Exports g w ref) : v = w := by
  cases h with
  | message => cases h'; rfl
  | enum => cases h'; rfl

theorem mem_exported_iff (hid : (g.file v).id = v) :
    ref ∈ (g.file v).exported ↔ Exports g v ref := by
  have hmessage : ∀ i, (∃ m, (g.file v).messages[i]? = some m ∧ (!m.mapEntry) = true) ↔
      i < (g.file v).messages.length ∧ ((g.file v).message i).mapEntry = false := by
    intro i
    rw [File.exists_message_iff (P := fun m => (!m.mapEntry) = true), Bool.not_eq_true']
  rw [File.exported, hid, List.mem_append]
  constructor
  · rintro (h | h)
    · obtain ⟨⟨m, i⟩, hi, rfl⟩ := List.mem_map.mp h
      have hshown := (hmessage i).mp
        (mem_positions_iff (p := fun m : Message => !m.mapEntry).mp (List.mem_map_of_mem hi))
      exact .message hshown.1 hshown.2
    · obtain ⟨⟨e, i⟩, hi, rfl⟩ := List.mem_map.mp h
      exact .enum (List.getElem?_eq_some_iff.mp (List.mem_zipIdx_iff_getElem?.mp hi)).1
  · rintro (@⟨i, hi, hshown⟩ | @⟨i, hi⟩)
    · obtain ⟨p, hp, rfl⟩ := List.mem_map.mp (mem_positions_iff
        (p := fun m : Message => !m.mapEntry).mpr ((hmessage _).mpr ⟨hi, hshown⟩))
      exact Or.inl (List.mem_map_of_mem hp)
    · refine Or.inr (List.mem_map.mpr ⟨((g.file v).enums[i], i), ?_, rfl⟩)
      exact List.mem_zipIdx_iff_getElem?.mpr (List.getElem?_eq_getElem hi)

theorem fileNamed?_eq (g : Graph) (name : String) :
    g.fileNamed? name = (g.files.map (·.name)).findIdx? (· = name) := by
  rw [Graph.fileNamed?, List.findIdx?_map]
  rfl

/-- What public imports bring in depends on the names and the types of the files only. -/
theorem reexported_congr (hnames : g.files.map (·.name) = g'.files.map (·.name))
    (hexported : g.files.map (·.exported) = g'.files.map (·.exported)) (raw : Descriptor.File) :
    reexported g raw = reexported g' raw := by
  have hfile : ∀ id, (g.file id).exported = (g'.file id).exported := by
    intro id
    rw [Graph.file, Graph.file, ← List.getD_map _ _ File.exported,
      ← List.getD_map _ _ File.exported, hexported]
  funext i
  unfold reexported
  simp only [fileNamed?_eq, hnames, hfile]

theorem Graph.build_fileNamed?_iff (hg : Graph.build raws = .ok g) :
    g.fileNamed? name = some v ↔ FirstNamed raws name v := by
  rw [fileNamed?_eq, Graph.build_names hg, List.findIdx?_map, List.findIdx?_eq_some_iff_getElem]
  simp only [Function.comp_apply, decide_eq_true_eq]
  constructor
  · rintro ⟨hv, hname, hbefore⟩
    refine ⟨⟨_, List.getElem?_eq_getElem hv, hname⟩, fun w raw hw hraw => ?_⟩
    obtain ⟨_, rfl⟩ := List.getElem?_eq_some_iff.mp hraw
    exact hbefore w hw
  · rintro ⟨⟨raw, hraw, hname⟩, hbefore⟩
    obtain ⟨hv, rfl⟩ := List.getElem?_eq_some_iff.mp hraw
    exact ⟨hv, hname, fun w hw => hbefore w _ hw (List.getElem?_eq_getElem (Nat.lt_trans hw hv))⟩

/-- A file hands on what its public imports bring in, in their order. -/
theorem Graph.build_reexports (hg : Graph.build raws = .ok g) (hu : raws[u]? = some raw) :
    ∃ types, raw.publicDependencies.mapM (reexported g raw) = .ok types ∧
      (g.file u).reexports = types.flatten := by
  obtain ⟨files, hlength, hnames, hbuild⟩ := exists_schemas raws
  have hname := Graph.build_names hg
  rw [hbuild] at hg
  simp only [bind_eq_ok_iff, pure_eq_ok_iff, mapM_eq_ok_iff, File.withReexports] at hg
  obtain ⟨files', hall, rfl⟩ := hg
  -- The types are taken from the files as they were before anything was handed on to them.
  have hexported : files.map (·.exported) = files'.map (·.exported) := by
    have hzip : files = (raws.zip files).map (·.2) :=
      (List.map_snd_zip (Nat.le_of_eq hlength)).symm
    rw [hzip, List.map_map, ← List.forall₂_eq_eq_eq, List.forall₂_map_left_iff,
      List.forall₂_map_right_iff]
    refine hall.imp fun x f h => ?_
    obtain ⟨types, -, rfl⟩ := h
    rfl
  obtain ⟨hi, rfl⟩ := List.getElem?_eq_some_iff.mp hu
  have hi' : u < (raws.zip files).length := by simpa [hlength] using hi
  have hi'' : u < files'.length := hall.length_eq ▸ hi'
  obtain ⟨types, htypes, hf⟩ := hall.get hi' hi''
  simp only [List.get_eq_getElem, List.getElem_zip] at htypes hf
  rw [reexported_congr (hnames.trans hname.symm) hexported] at htypes
  refine ⟨types, mapM_eq_ok_iff.mpr htypes, ?_⟩
  rw [Graph.file_eq_getElem hi'', ← hf]

theorem Graph.build_file_id (hg : Graph.build raws = .ok g) (hv : FirstNamed raws name v) :
    (g.file v).id = v := by
  obtain ⟨⟨raw, hraw, -⟩, -⟩ := hv
  have hlt : v < g.files.length := Graph.build_length hg ▸ (List.getElem?_eq_some_iff.mp hraw).1
  rw [Graph.file_eq_getElem hlt, Graph.build_id hg hlt]

/-- A public import brings in the types of the first file that has the name it gives. -/
theorem Graph.build_reexported (hg : Graph.build raws = .ok g) {i : Int} {types : List TypeRef}
    (h : reexported g raw i = .ok types) :
    ref ∈ types ↔ ∃ (n : Nat) (name : String) (v : Nat), i = n ∧
      raw.dependencies[n]? = some name ∧ FirstNamed raws name v ∧ Exports g v ref := by
  have hfound : ∃ (n : Nat) (name : String) (v : Nat), i = n ∧ raw.dependencies[n]? = some name ∧
      g.fileNamed? name = some v ∧ types = (g.file v).exported := by
    unfold reexported at h
    split at h
    · cases h
    · next name hd =>
      obtain ⟨n, hi, hd⟩ := publicDependency?_eq_some_iff.mp hd
      split at h
      · cases h
      · next v hv => exact ⟨n, name, v, hi, hd, hv, (Except.ok.inj h).symm⟩
  obtain ⟨n, name, v, rfl, hd, hv, rfl⟩ := hfound
  rw [Graph.build_fileNamed?_iff hg] at hv
  rw [mem_exported_iff (Graph.build_file_id hg hv)]
  constructor
  · exact fun href => ⟨n, name, v, rfl, hd, hv, href⟩
  · rintro ⟨n', name', v', hn, hd', hv', href⟩
    obtain rfl := Int.ofNat.inj hn
    obtain rfl := Option.some.inj (hd.symm.trans hd')
    rw [← Graph.build_fileNamed?_iff hg] at hv hv'
    obtain rfl := Option.some.inj (hv.symm.trans hv')
    exact href

/-- A file hands on the types of the files that it imports publicly. -/
theorem Graph.mem_reexports_iff (hg : Graph.build raws = .ok g) :
    ref ∈ (g.file u).reexports ↔ ∃ v, ImportsPublicly raws u v ∧ Exports g v ref := by
  cases hraw : raws[u]? with
  | none =>
    have hu : g.files[u]? = none := by
      rw [List.getElem?_eq_none_iff] at hraw ⊢
      exact Graph.build_length hg ▸ hraw
    have hfile : g.file u = {} := by rw [Graph.file, List.getD_eq_getElem?_getD, hu]; rfl
    rw [hfile]
    refine iff_of_false List.not_mem_nil ?_
    rintro ⟨v, ⟨raw, n, name, h, -⟩, -⟩
    cases hraw.symm.trans h
  | some raw =>
    obtain ⟨types, htypes, hreexports⟩ := Graph.build_reexports hg hraw
    have hall := mapM_eq_ok_iff.mp htypes
    rw [hreexports, List.mem_flatten]
    constructor
    · rintro ⟨l, hl, href⟩
      obtain ⟨i, hi, h⟩ := forall₂_exists_right hall hl
      obtain ⟨n, name, v, rfl, hd, hv, href⟩ := (Graph.build_reexported hg h).mp href
      exact ⟨v, ⟨raw, n, name, hraw, hi, hd, hv⟩, href⟩
    · rintro ⟨v, ⟨raw', n, name, hraw', hn, hd, hv⟩, href⟩
      obtain rfl := Option.some.inj (hraw.symm.trans hraw')
      obtain ⟨l, hl, h⟩ := forall₂_exists hall hn
      exact ⟨l, hl, (Graph.build_reexported hg h).mpr ⟨n, name, v, rfl, hd, hv, href⟩⟩

end Exported

section Chains

open Relation

variable {raws : List Descriptor.File} {g : Graph}

/-- A file hands on the types of the files that it imports publicly, and those behind chains of
public imports just if every file there with some types is imported publicly right away. -/
theorem reexports_iff (hg : Graph.build raws = .ok g) (u : Nat) :
    (∀ ref, ref ∈ (g.file u).reexports ↔ ∃ v, ImportsPublicly raws u v ∧ Exports g v ref) ∧
    ((∀ ref, ref ∈ (g.file u).reexports ↔
        ∃ v, TransGen (ImportsPublicly raws) u v ∧ Exports g v ref) ↔
      ∀ v, TransGen (ImportsPublicly raws) u v → (∃ ref, Exports g v ref) →
        ImportsPublicly raws u v) := by
  refine ⟨fun ref => Graph.mem_reexports_iff hg, ?_⟩
  simp only [Graph.mem_reexports_iff hg]
  constructor
  · rintro h v hv ⟨ref, href⟩
    obtain ⟨w, hw, href'⟩ := (h ref).mpr ⟨v, hv, href⟩
    exact href.unique href' ▸ hw
  · intro h ref
    constructor
    · rintro ⟨v, hv, href⟩
      exact ⟨v, .single hv, href⟩
    · rintro ⟨v, hv, href⟩
      exact ⟨v, h v hv ⟨ref, href⟩, href⟩

/-- A file with one message, one that imports it publicly, and one that imports that one so. -/
def facades : List Descriptor.File :=
  [{ name := "base.proto", messages := [{ name := "Base" }] },
    { name := "facade.proto", dependencies := ["base.proto"], publicDependencies := [0] },
    { name := "top.proto", dependencies := ["facade.proto"], publicDependencies := [0] }]

theorem exists_build_facades : ∃ g, Graph.build facades = .ok g ∧
    g.fileNamed? "base.proto" = some 0 ∧ g.fileNamed? "facade.proto" = some 1 :=
  ⟨_, rfl, by decide, by decide⟩

theorem facades_imports {u v : Nat} (h : ImportsPublicly facades u v) : u = v + 1 := by
  obtain ⟨g, hg, hbase, hfacade⟩ := exists_build_facades
  obtain ⟨raw, n, name, hraw, hn, hd, hv⟩ := h
  rw [← Graph.build_fileNamed?_iff hg] at hv
  match u with
  | 0 =>
    obtain rfl := Option.some.inj hraw
    exact absurd hn List.not_mem_nil
  | 1 =>
    obtain rfl := Option.some.inj hraw
    obtain rfl := Int.ofNat.inj (List.mem_singleton.mp hn)
    obtain rfl := Option.some.inj hd
    exact congrArg (· + 1) (Option.some.inj (hbase.symm.trans hv))
  | 2 =>
    obtain rfl := Option.some.inj hraw
    obtain rfl := Int.ofNat.inj (List.mem_singleton.mp hn)
    obtain rfl := Option.some.inj hd
    exact congrArg (· + 1) (Option.some.inj (hfacade.symm.trans hv))
  | u + 3 => exact nomatch hraw

/-- The first facade has nothing behind it but what it imports itself. -/
theorem reexports_iff_facades : ∃ g, Graph.build facades = .ok g ∧
    (g.file 1).reexports = [.message ⟨0, 0⟩] ∧
    ∀ ref, ref ∈ (g.file 1).reexports ↔
      ∃ v, TransGen (ImportsPublicly facades) 1 v ∧ Exports g v ref := by
  obtain ⟨g, hg⟩ : ∃ g, Graph.build facades = .ok g := ⟨_, rfl⟩
  have hlt : ∀ {u v}, TransGen (ImportsPublicly facades) u v → v < u := by
    intro u v h
    induction h with
    | single h => have := facades_imports h; omega
    | tail _ h ih => have := facades_imports h; omega
  refine ⟨g, hg, by cases hg; rfl, (reexports_iff hg 1).2.mpr ?_⟩
  rintro v (h | ⟨hw, h⟩) -
  · exact h
  · have := hlt hw
    have := facades_imports h
    omega

/-- The second facade hands on nothing, though a message stands behind its public imports. -/
theorem not_reexports_behind : ∃ g, Graph.build facades = .ok g ∧ (g.file 2).reexports = [] ∧
    TransGen (ImportsPublicly facades) 2 0 ∧ Exports g 0 (.message ⟨0, 0⟩) ∧
    ¬ ∀ ref, ref ∈ (g.file 2).reexports ↔
      ∃ v, TransGen (ImportsPublicly facades) 2 v ∧ Exports g v ref := by
  obtain ⟨g, hg, hbase, hfacade⟩ := exists_build_facades
  have hchain : TransGen (ImportsPublicly facades) 2 0 :=
    .tail (.single ⟨_, 0, _, rfl, List.mem_cons_self, rfl,
        (Graph.build_fileNamed?_iff hg).mp hfacade⟩)
      ⟨_, 0, _, rfl, List.mem_cons_self, rfl, (Graph.build_fileNamed?_iff hg).mp hbase⟩
  have hexports : Exports g 0 (.message ⟨0, 0⟩) := by
    cases hg
    exact .message (by decide) rfl
  have hnil : (g.file 2).reexports = [] := by
    cases hg
    rfl
  refine ⟨g, hg, hnil, hchain, hexports, fun h => ?_⟩
  have hmem := (h _).mpr ⟨0, hchain, hexports⟩
  rw [hnil] at hmem
  exact absurd hmem List.not_mem_nil

end Chains

end ProtoJava.Schema
