import ProtoJava.Proofs.Lookup
import ProtoJava.Proofs.Schema.Building
import ProtoJava.Proofs.Schema.Renumbering

/-! # Places of files

Where the files of one graph stand in another one that has them as well. Files are found by their
names and types by theirs, so it does not matter where they stand.
-/

namespace ProtoJava

/-- The full names of the types that a file declares. -/
def Descriptor.File.typeNames (raw : Descriptor.File) : List String :=
  let nodes := Schema.flattenMessages .top 0 0 raw.messages
  nodes.map (fun node => Schema.fullName raw.package node.typeName) ++
    (Schema.enumsOf raw.package raw.enums nodes).map (·.fullName)

namespace Schema

/-- A file without its place in a graph and what it hands on. -/
def File.own (f : File) : File :=
  { f with id := 0, reexports := [] }

theorem File.of_own {α : Type} (read : File → α) (hread : ∀ f, read f.own = read f) {f f' : File}
    (h : f'.own = f.own) : read f' = read f := by
  rw [← hread f', h, hread]

theorem File.named_names (f : File) :
    f.named.map (·.1) = f.messages.map (·.fullName) ++ f.enums.map (·.fullName) := by
  rw [File.named, List.map_append, map_mapIdx, map_mapIdx, mapIdx_eq_map, mapIdx_eq_map]

/-- A file is the schema of a descriptor, at some place and with what it hands on. -/
def File.Describes (raw : Descriptor.File) (f : File) : Prop :=
  ∃ id f₀, File.ofDescriptor id raw = .ok f₀ ∧ f = { f₀ with reexports := f.reexports }

namespace File.Describes

variable {raw : Descriptor.File} {f f' : File}

theorem own_eq (h : File.Describes raw f) (h' : File.Describes raw f') : f'.own = f.own := by
  obtain ⟨id, f₀, h₀, hf⟩ := h
  obtain ⟨id', f₀', h₀', hf'⟩ := h'
  simp only [File.ofDescriptor, bind_eq_ok_iff, pure_eq_ok_iff] at h₀ h₀'
  obtain ⟨nested, hn, messages, hm, rfl⟩ := h₀
  obtain ⟨nested', hn', messages', hm', rfl⟩ := h₀'
  obtain rfl := Except.ok.inj (hn.symm.trans hn')
  obtain rfl := Except.ok.inj (hm.symm.trans hm')
  rw [hf, hf']
  rfl

theorem name (h : File.Describes raw f) : f.name = raw.name := by
  obtain ⟨id, f₀, h₀, hf⟩ := h
  have hname : f.name = f₀.name := by rw [hf]
  exact hname.trans (File.ofDescriptor_name h₀)

theorem typeNames (h : File.Describes raw f) : f.named.map (·.1) = raw.typeNames := by
  obtain ⟨id, f₀, h₀, hf⟩ := h
  obtain ⟨-, henums, -, -, hmessages⟩ := File.ofDescriptor_ok h₀
  have hm : f.messages = f₀.messages := by rw [hf]
  have he : f.enums = f₀.enums := by rw [hf]
  rw [File.named_names, hm, he, hmessages, henums, map_mapIdx, Descriptor.File.typeNames,
    ← mapIdx_eq_map (fun node : Node => fullName raw.package node.typeName)]
  rfl

end File.Describes

section Built

variable {raws : List Descriptor.File} {g : Graph} (hg : Graph.build raws = .ok g)

include hg

theorem Graph.build_length : g.files.length = raws.length := by
  obtain ⟨files, hlength, -, hbuild⟩ := exists_schemas raws
  rw [hbuild] at hg
  simp only [bind_eq_ok_iff, pure_eq_ok_iff, mapM_eq_ok_iff] at hg
  obtain ⟨files', h, rfl⟩ := hg
  simpa [hlength] using h.length_eq.symm

theorem Graph.build_describes : List.Forall₂ File.Describes raws g.files := by
  rw [List.forall₂_iff_get]
  refine ⟨(Graph.build_length hg).symm, fun i hi hi' => ?_⟩
  obtain ⟨raw, f₀, hraw, h₀, hf⟩ := Graph.build_ok hg (List.getElem?_eq_getElem hi')
  rw [List.getElem?_eq_getElem hi] at hraw
  obtain rfl := Option.some.inj hraw
  exact ⟨i, f₀, h₀, hf⟩

theorem Graph.build_describes_file {i : Nat} {raw : Descriptor.File} (hraw : raws[i]? = some raw) :
    File.Describes raw (g.file i) := by
  obtain ⟨hi, rfl⟩ := List.getElem?_eq_some_iff.mp hraw
  have hi' : i < g.files.length := Graph.build_length hg ▸ hi
  rw [Graph.file_eq_getElem hi']
  exact (Graph.build_describes hg).get hi hi'

theorem Graph.build_names : g.files.map (·.name) = raws.map (·.name) := by
  rw [← List.forall₂_eq_eq_eq, List.forall₂_map_left_iff, List.forall₂_map_right_iff]
  exact (Graph.build_describes hg).flip.imp fun f raw h => File.Describes.name h

theorem Graph.build_typeNames :
    g.index.entries.map (·.1) = raws.flatMap Descriptor.File.typeNames := by
  rw [Graph.index, List.map_flatMap, List.flatMap_def, List.flatMap_def]
  congr 1
  rw [← List.forall₂_eq_eq_eq, List.forall₂_map_left_iff, List.forall₂_map_right_iff]
  exact (Graph.build_describes hg).flip.imp fun f raw h => File.Describes.typeNames h

end Built

section Named

variable {g : Graph} {i : Nat} {name : String}

theorem Graph.name_of_fileNamed? (h : g.fileNamed? name = some i) :
    i < g.files.length ∧ (g.file i).name = name := by
  obtain ⟨hi, hname, -⟩ := List.findIdx?_eq_some_iff_getElem.mp h
  exact ⟨hi, by simpa [Graph.file, hi] using hname⟩

/-- Where names are different, a file is found by its name. -/
theorem Graph.fileNamed?_file (hd : (g.files.map (·.name)).Nodup) (hi : i < g.files.length) :
    g.fileNamed? (g.file i).name = some i := by
  rw [Graph.file_eq_getElem hi]
  refine List.findIdx?_eq_some_iff_getElem.mpr ⟨hi, by simp, fun j hj hname => ?_⟩
  have hi' : i < (g.files.map (·.name)).length := by simpa using hi
  have hj' : j < (g.files.map (·.name)).length := Nat.lt_trans hj hi'
  have hnames : (g.files.map (·.name))[j] = (g.files.map (·.name))[i] := by simpa using hname
  exact Nat.ne_of_lt hj (hd.getElem_inj_iff.mp hnames)

end Named

/-- The files of `g` are files of `g'` as well, where files and types are told apart by their
names. -/
structure Graph.Within (g g' : Graph) : Prop where
  built : ∃ raws, Graph.build raws = .ok g
  built' : ∃ raws, Graph.build raws = .ok g'
  names : (g.files.map (·.name)).Nodup
  names' : (g'.files.map (·.name)).Nodup
  types' : (g'.index.entries.map (·.1)).Nodup
  own : ∀ f ∈ g.files, ∃ f' ∈ g'.files, f'.own = f.own

/-- Where file `i` of `g` stands in `g'`; numbers of no files go beyond all files. -/
def Graph.place (g g' : Graph) (i : Nat) : Nat :=
  if i < g.files.length then (g'.fileNamed? (g.file i).name).getD 0 else g'.files.length + i

theorem Known.mono {names names' : List String} (h : names ⊆ names') {raw : Descriptor.File}
    {i : Int} (hk : Known names raw i) : Known names' raw i := by
  intro what hu
  cases hu with
  | negative hi => exact hk _ (.negative hi)
  | beyond hi => exact hk _ (.beyond hi)
  | absent hd hn => exact hk _ (.absent hd fun hm => hn (h hm))

section Subset

variable {raws raws' : List Descriptor.File} {g g' : Graph} (hg : Graph.build raws = .ok g)
  (hg' : Graph.build raws' = .ok g') (hsub : raws ⊆ raws')

include hg hg' hsub

theorem Graph.exists_own {f : File} (hf : f ∈ g.files) : ∃ f' ∈ g'.files, f'.own = f.own := by
  obtain ⟨raw, hraw, h⟩ := forall₂_exists_right (Graph.build_describes hg) hf
  obtain ⟨f', hf', h'⟩ := forall₂_exists (Graph.build_describes hg') (hsub hraw)
  exact ⟨f', hf', File.Describes.own_eq h h'⟩

theorem Graph.within_of_subset (hnames : (raws.map (·.name)).Nodup)
    (hnames' : (raws'.map (·.name)).Nodup)
    (htypes' : (raws'.flatMap Descriptor.File.typeNames).Nodup) : g.Within g' where
  built := ⟨raws, hg⟩
  built' := ⟨raws', hg'⟩
  names := Graph.build_names hg ▸ hnames
  names' := Graph.build_names hg' ▸ hnames'
  types' := Graph.build_typeNames hg' ▸ htypes'
  own _ := Graph.exists_own hg hg' hsub

end Subset

namespace Graph.Within

variable {g g' : Graph} (h : g.Within g') {i j : Nat} {name : String}

include h

theorem place_eq (hi : i < g.files.length) (hj : j < g'.files.length)
    (hown : (g'.file j).own = (g.file i).own) : g.place g' i = j := by
  have hname : (g'.file j).name = (g.file i).name :=
    File.of_own (·.name) (fun _ => rfl) hown
  rw [Graph.place, if_pos hi, ← hname, Graph.fileNamed?_file h.names' hj, Option.getD_some]

theorem exists_place (hi : i < g.files.length) :
    g.place g' i < g'.files.length ∧ (g'.file (g.place g' i)).own = (g.file i).own := by
  obtain ⟨f', hf', hown⟩ := h.own _ (Graph.file_of_lt hi)
  obtain ⟨j, hj, rfl⟩ := List.mem_iff_getElem.mp hf'
  rw [← Graph.file_eq_getElem hj] at hown
  rw [h.place_eq hi hj hown]
  exact ⟨hj, hown⟩

theorem place_lt_iff : g.place g' i < g'.files.length ↔ i < g.files.length := by
  by_cases hi : i < g.files.length
  · exact iff_of_true (h.exists_place hi).1 hi
  · refine iff_of_false ?_ hi
    rw [Graph.place, if_neg hi]
    omega

theorem own_place (i : Nat) : (g'.file (g.place g' i)).own = (g.file i).own := by
  by_cases hi : i < g.files.length
  · exact (h.exists_place hi).2
  · have hi' : ¬ g.place g' i < g'.files.length := fun hlt => hi (h.place_lt_iff.mp hlt)
    simp [Graph.file, Nat.le_of_not_lt hi, Nat.le_of_not_lt hi']

theorem name_place (i : Nat) : (g'.file (g.place g' i)).name = (g.file i).name :=
  File.of_own (·.name) (fun _ => rfl) (h.own_place i)

theorem place_injective : Function.Injective (g.place g') := by
  intro i j hij
  by_cases hi : i < g.files.length
  · have hj : j < g.files.length := by
      rw [← h.place_lt_iff, ← hij]
      exact h.place_lt_iff.mpr hi
    have hname : (g.file i).name = (g.file j).name := by
      rw [← h.name_place, hij, h.name_place]
    have hfound := Graph.fileNamed?_file h.names hi
    rw [hname, Graph.fileNamed?_file h.names hj] at hfound
    exact (Option.some.inj hfound).symm
  · have hj : ¬ j < g.files.length := by
      rw [← h.place_lt_iff, ← hij]
      exact fun hlt => hi (h.place_lt_iff.mp hlt)
    rw [Graph.place, Graph.place, if_neg hi, if_neg hj] at hij
    omega

theorem renumbers : g.Renumbers (g.place g') g' where
  injective := h.place_injective
  core i := File.of_own (·.core) (fun _ => rfl) (h.own_place i)

theorem fileNamed? (hi : g.fileNamed? name = some i) :
    g'.fileNamed? name = some (g.place g' i) := by
  obtain ⟨hlt, rfl⟩ := Graph.name_of_fileNamed? hi
  rw [← h.name_place]
  exact Graph.fileNamed?_file h.names' (h.place_lt_iff.mpr hlt)

end Graph.Within

section References

theorem File.named_renumber {ρ : Nat → Nat} {f f' : File} (hcore : f'.core = f.core)
    (hid : f'.id = ρ f.id) : f'.named = f.named.map fun e => (e.1, e.2.renumber ρ) := by
  have hmessages : f'.messages = f.messages := File.of_core (·.messages) (fun _ => rfl) hcore
  have henums : f'.enums = f.enums := File.of_core (·.enums) (fun _ => rfl) hcore
  rw [File.named, File.named, hmessages, henums, hid, List.map_append, map_mapIdx,
    map_mapIdx]
  rfl

namespace Graph.Within

variable {g g' : Graph} (h : g.Within g') {name : String} {f : Field}

include h

/-- A type that is found in the one graph is found in the other one, as the same type. -/
theorem resolve {ref : TypeRef} (hr : g.index.resolve name = .ok ref) :
    g'.index.resolve name = .ok (ref.renumber (g.place g')) := by
  obtain ⟨raws, hg⟩ := h.built
  obtain ⟨raws', hg'⟩ := h.built'
  obtain ⟨i, hi, hid, hmem⟩ := Graph.mem_named hg hr
  have hi' : g.place g' i < g'.files.length := h.place_lt_iff.mpr hi
  have hid' : (g'.file (g.place g' i)).id = g.place g' (g.file i).id := by
    rw [Graph.file_eq_getElem hi', Graph.build_id hg' hi', hid]
  have hmem' : (name, ref.renumber (g.place g')) ∈ g'.index.entries := by
    refine List.mem_flatMap.mpr ⟨_, Graph.file_of_lt hi', ?_⟩
    rw [File.named_renumber (h.renumbers.core i) hid']
    exact List.mem_map_of_mem hmem
  rw [Index.resolve, lookup_of_mem h.types' hmem']

theorem findsMessage {id : MessageId} (hm : g.FindsMessage name id) :
    g'.FindsMessage name (id.renumber (g.place g')) where
  resolve := h.resolve hm.resolve
  file_lt := h.place_lt_iff.mpr hm.file_lt
  lt := (h.renumbers.of_core (·.messages.length) (fun _ => rfl) id.file).symm ▸ hm.lt
  fullName := by
    rw [h.renumbers.message]
    exact hm.fullName

theorem findsEnum {id : EnumId} (he : g.FindsEnum name id) :
    g'.FindsEnum name (id.renumber (g.place g')) where
  resolve := h.resolve he.resolve
  file_lt := h.place_lt_iff.mpr he.file_lt
  lt := (h.renumbers.of_core (·.enums.length) (fun _ => rfl) id.file).symm ▸ he.lt
  fullName := by
    rw [h.renumbers.enumType]
    exact he.fullName

theorem refers (hf : g.Refers f) : g'.Refers f where
  message ht := by
    obtain ⟨id, hm⟩ := hf.message ht
    exact ⟨_, h.findsMessage hm⟩
  enum ht := by
    obtain ⟨id, he⟩ := hf.enum ht
    exact ⟨_, h.findsEnum he⟩
  extendee name hx := by
    obtain ⟨id, hm⟩ := hf.extendee name hx
    exact ⟨_, h.findsMessage hm⟩

theorem agree (hf : g.Refers f) : Index.Agree (g.place g') g.index g'.index f := by
  have hfound : ∀ {name ref}, g.index.resolve name = .ok ref →
      g'.index.resolve name = (g.index.resolve name).map (TypeRef.renumber (g.place g')) := by
    intro name ref hr
    rw [h.resolve hr, hr]
    rfl
  constructor
  case typeName =>
    intro ht
    by_cases hm : f.type.isMessage
    · obtain ⟨id, hm⟩ := hf.message hm
      exact hfound hm.resolve
    · have he : f.type = .enum := by
        revert ht hm
        cases f.type <;> decide
      obtain ⟨id, he⟩ := hf.enum he
      exact hfound he.resolve
  case extendee =>
    intro name hx
    obtain ⟨id, hm⟩ := hf.extendee name hx
    exact hfound hm.resolve

/-- References are found in the graph with more files if they are in the one with fewer, and those
of the other files are. -/
theorem checkReferences (hr : g.checkReferences g.index = .ok ())
    (hother : ∀ f' ∈ g'.files, (∃ f ∈ g.files, f'.own = f.own) ∨
      ∀ x ∈ f'.declaredFields, g'.Refers x) : g'.checkReferences g'.index = .ok () := by
  obtain ⟨raws, hg⟩ := h.built
  obtain ⟨raws', hg'⟩ := h.built'
  rw [Graph.checkReferences_iff hg] at hr
  rw [Graph.checkReferences_iff hg']
  intro m x hx
  obtain ⟨f', hf', hx⟩ := List.mem_flatMap.mp (Graph.exists_declares_iff.mp ⟨m, hx⟩)
  rcases hother f' hf' with ⟨f, hf, hown⟩ | hall
  · have hfields : f'.declaredFields = f.declaredFields :=
      File.of_own (·.declaredFields) (fun _ => rfl) hown
    rw [hfields] at hx
    obtain ⟨m, hx⟩ := Graph.exists_declares_iff.mpr (List.mem_flatMap.mpr ⟨f, hf, hx⟩)
    exact h.refers (hr m x hx)
  · exact hall x hx

end Graph.Within

end References

end Schema

end ProtoJava
