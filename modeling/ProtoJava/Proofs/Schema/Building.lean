import ProtoJava.Proofs.Schema.Arena

/-! # Building a graph

The schema of a file is always there, so building a graph fails only where a public import gives
no file of the request. The first such import is the one that is reported.
-/

namespace ProtoJava.Schema

/-- Public import `i` of a file gives none of the files of the names; `what` is what it gives. -/
inductive Unknown (names : List String) (raw : Descriptor.File) : Int → String → Prop
  | negative {i : Int} : i < 0 → Unknown names raw i ("#" ++ toString i)
  | beyond {i : Int} : raw.dependencies.length ≤ i → Unknown names raw i ("#" ++ toString i)
  | absent {i : Nat} {what : String} : raw.dependencies[i]? = some what → what ∉ names →
      Unknown names raw i what

/-- Public import `i` of a file gives a file of the names. -/
def Known (names : List String) (raw : Descriptor.File) (i : Int) : Prop :=
  ∀ what, ¬ Unknown names raw i what

section Imports

variable {g : Graph} {raw : Descriptor.File} {i : Int} {names : List String}

theorem fileNamed?_eq_none_iff {name : String} :
    g.fileNamed? name = none ↔ name ∉ g.files.map (·.name) := by
  simp [Graph.fileNamed?, List.findIdx?_eq_none_iff]

theorem publicDependency?_eq_some_iff {what : String} :
    publicDependency? raw i = some what ↔ ∃ n : Nat, i = n ∧ raw.dependencies[n]? = some what := by
  cases i with
  | ofNat n =>
    constructor
    · exact fun h => ⟨n, rfl, h⟩
    · rintro ⟨m, hm, h⟩
      obtain rfl := Int.ofNat.inj hm
      exact h
  | negSucc n =>
    simp only [publicDependency?, Int.toNat?, Option.bind_none, reduceCtorEq, false_iff]
    rintro ⟨m, h, -⟩
    omega

theorem publicDependency?_eq_none_iff :
    publicDependency? raw i = none ↔ i < 0 ∨ raw.dependencies.length ≤ i := by
  cases i with
  | ofNat n =>
    simp only [publicDependency?, Int.toNat?, Option.bind_some, List.getElem?_eq_none_iff,
      Int.ofNat_eq_natCast]
    omega
  | negSucc n => simp [publicDependency?, Int.toNat?]

theorem reexported_eq_error_iff {e : Error} :
    reexported g raw i = .error e ↔ ∃ what, Unknown (g.files.map (·.name)) raw i what ∧
      e = .unknownDependency raw.name what := by
  unfold reexported
  constructor
  · intro h
    split at h
    · next hn =>
      cases h
      rcases publicDependency?_eq_none_iff.mp hn with hi | hi
      · exact ⟨_, .negative hi, rfl⟩
      · exact ⟨_, .beyond hi, rfl⟩
    · next what hd =>
      obtain ⟨n, rfl, hd⟩ := publicDependency?_eq_some_iff.mp hd
      split at h
      · next hf =>
        cases h
        exact ⟨what, .absent hd (fileNamed?_eq_none_iff.mp hf), rfl⟩
      · cases h
  · rintro ⟨what, hu, rfl⟩
    cases hu with
    | negative hi => rw [publicDependency?_eq_none_iff.mpr (Or.inl hi)]
    | beyond hi => rw [publicDependency?_eq_none_iff.mpr (Or.inr hi)]
    | @absent n _ hd hn =>
      rw [publicDependency?_eq_some_iff.mpr ⟨n, rfl, hd⟩]
      simp only [fileNamed?_eq_none_iff.mpr hn]

theorem exists_reexported_iff :
    (∃ types, reexported g raw i = .ok types) ↔ Known (g.files.map (·.name)) raw i := by
  rw [exists_eq_ok_iff]
  constructor
  · exact fun h what hu => h _ (reexported_eq_error_iff.mpr ⟨what, hu, rfl⟩)
  · intro h e he
    obtain ⟨what, hu, -⟩ := reexported_eq_error_iff.mp he
    exact h what hu

theorem withReexports_eq_error_iff {f : File} {e : Error} :
    f.withReexports g raw = .error e ↔ ∃ before i after what,
      raw.publicDependencies = before ++ i :: after ∧
      (∀ j ∈ before, Known (g.files.map (·.name)) raw j) ∧
      Unknown (g.files.map (·.name)) raw i what ∧ e = .unknownDependency raw.name what := by
  simp only [File.withReexports, bind_eq_error_iff, mapM_eq_error_iff, exists_reexported_iff,
    reexported_eq_error_iff]
  constructor
  · rintro (⟨before, i, after, hl, hb, what, hu, rfl⟩ | ⟨_, _, h⟩)
    · exact ⟨before, i, after, what, hl, hb, hu, rfl⟩
    · cases h
  · rintro ⟨before, i, after, what, hl, hb, hu, rfl⟩
    exact Or.inl ⟨before, i, after, hl, hb, what, hu, rfl⟩

theorem exists_withReexports_iff {f : File} :
    (∃ f', f.withReexports g raw = .ok f') ↔
      ∀ i ∈ raw.publicDependencies, Known (g.files.map (·.name)) raw i := by
  simp only [← exists_reexported_iff, ← exists_mapM_iff, File.withReexports, bind_eq_ok_iff,
    pure_eq_ok_iff]
  constructor
  · rintro ⟨_, types, h, -⟩
    exact ⟨types, h⟩
  · rintro ⟨types, h⟩
    exact ⟨_, types, h, rfl⟩

end Imports

section Build

variable {raws : List Descriptor.File} {files : List File}

theorem File.ofDescriptor_name {id : Nat} {raw : Descriptor.File} {f : File}
    (h : File.ofDescriptor id raw = .ok f) : f.name = raw.name := by
  simp only [File.ofDescriptor, bind_eq_ok_iff, pure_eq_ok_iff] at h
  obtain ⟨_, -, _, -, rfl⟩ := h
  rfl

theorem names_of_schemas
    (h : List.Forall₂ (fun x f => File.ofDescriptor x.2 x.1 = .ok f) raws.zipIdx files) :
    files.map (·.name) = raws.map (·.name) := by
  have hnames : List.Forall₂ Eq (raws.zipIdx.map (·.1.name)) (files.map (·.name)) := by
    rw [List.forall₂_map_left_iff, List.forall₂_map_right_iff]
    exact h.imp fun x f h => (File.ofDescriptor_name h).symm
  rw [List.forall₂_eq_eq_eq] at hnames
  rw [← hnames, ← List.zipIdx_map_fst 0 raws, List.map_map]
  simp

/-- The files of a request have their schemas, which only miss what others hand on. -/
theorem exists_schemas (raws : List Descriptor.File) : ∃ files : List File,
    files.length = raws.length ∧ files.map (·.name) = raws.map (·.name) ∧
    Graph.build raws = do
      let files ← (raws.zip files).mapM fun x => x.2.withReexports ⟨files⟩ x.1
      return ⟨files⟩ := by
  have hok : ∀ x ∈ raws.zipIdx, ∃ f, File.ofDescriptor x.2 x.1 = .ok f :=
    fun x _ => File.exists_ofDescriptor x.2 x.1
  obtain ⟨files, hfiles⟩ := exists_mapM_iff.mpr hok
  have hall := mapM_eq_ok_iff.mp hfiles
  refine ⟨files, by simpa using hall.length_eq.symm, names_of_schemas hall, ?_⟩
  rw [Graph.build, hfiles]
  rfl

variable {e : Error}

theorem exists_build_iff : (∃ g, Graph.build raws = .ok g) ↔
    ∀ raw ∈ raws, ∀ i ∈ raw.publicDependencies, Known (raws.map (·.name)) raw i := by
  obtain ⟨files, hlength, hnames, hbuild⟩ := exists_schemas raws
  have hzip : (raws.zip files).map Prod.fst = raws := List.map_fst_zip (Nat.le_of_eq hlength.symm)
  have hmap : (∃ g, Graph.build raws = .ok g) ↔
      ∃ r, ((raws.zip files).mapM fun x => x.2.withReexports ⟨files⟩ x.1) = .ok r := by
    simp only [hbuild, bind_eq_ok_iff, pure_eq_ok_iff]
    constructor
    · rintro ⟨_, r, h, -⟩
      exact ⟨r, h⟩
    · rintro ⟨r, h⟩
      exact ⟨_, r, h, rfl⟩
  rw [hmap, exists_mapM_iff]
  simp only [exists_withReexports_iff, hnames]
  have hmem : ∀ raw, raw ∈ raws ↔ ∃ x ∈ raws.zip files, x.1 = raw := by
    intro raw
    rw [← List.mem_map, hzip]
  constructor
  · intro h raw hraw
    obtain ⟨x, hx, rfl⟩ := (hmem raw).mp hraw
    exact h x hx
  · exact fun h x hx => h x.1 ((hmem x.1).mpr ⟨x, hx, rfl⟩)

theorem build_eq_error_iff : Graph.build raws = .error e ↔
    ∃ before raw after earlier i later what,
      raws = before ++ raw :: after ∧ raw.publicDependencies = earlier ++ i :: later ∧
      (∀ r ∈ before, ∀ j ∈ r.publicDependencies, Known (raws.map (·.name)) r j) ∧
      (∀ j ∈ earlier, Known (raws.map (·.name)) raw j) ∧
      Unknown (raws.map (·.name)) raw i what ∧ e = .unknownDependency raw.name what := by
  obtain ⟨files, hlength, hnames, hbuild⟩ := exists_schemas raws
  have hzip : (raws.zip files).map Prod.fst = raws := List.map_fst_zip (Nat.le_of_eq hlength.symm)
  simp only [hbuild, bind_eq_error_iff, mapM_eq_error_iff, exists_withReexports_iff,
    withReexports_eq_error_iff, hnames]
  constructor
  · rintro (⟨before, ⟨raw, f⟩, after, hl, hbefore, earlier, i, later, what, hi, hk, hu, he⟩ |
      ⟨_, _, h⟩)
    · refine ⟨before.map Prod.fst, raw, after.map Prod.fst, earlier, i, later, what, ?_, hi, ?_,
        hk, hu, he⟩
      · rw [← hzip, hl]
        simp
      · intro r hr
        obtain ⟨x, hx, rfl⟩ := List.mem_map.mp hr
        exact hbefore x hx
    · exact nomatch h
  · rintro ⟨before, raw, after, earlier, i, later, what, hl, hi, hb, hk, hu, he⟩
    obtain ⟨zbefore, rest, hrest, rfl, hmap⟩ := List.map_eq_append_iff.mp (hzip.trans hl)
    obtain ⟨⟨raw, f⟩, zafter, rfl, rfl, rfl⟩ := List.map_eq_cons_iff.mp hmap
    exact Or.inl ⟨zbefore, (raw, f), zafter, hrest, fun x hx => hb x.1 (List.mem_map_of_mem hx),
      earlier, i, later, what, hi, hk, hu, he⟩

/-- The arenas of every file hold the tree of its descriptor, and building a graph fails just if
a public import gives no file of the request, with the first such import. -/
theorem build_faithful :
    (∀ id raw, ∃ f, File.ofDescriptor id raw = .ok f ∧ f.Faithful raw) ∧
    ∀ raws : List Descriptor.File,
      ((∃ g, Graph.build raws = .ok g) ↔
        ∀ raw ∈ raws, ∀ i ∈ raw.publicDependencies, Known (raws.map (·.name)) raw i) ∧
      ∀ e, Graph.build raws = .error e ↔
        ∃ before raw after earlier i later what,
          raws = before ++ raw :: after ∧ raw.publicDependencies = earlier ++ i :: later ∧
          (∀ r ∈ before, ∀ j ∈ r.publicDependencies, Known (raws.map (·.name)) r j) ∧
          (∀ j ∈ earlier, Known (raws.map (·.name)) raw j) ∧
          Unknown (raws.map (·.name)) raw i what ∧ e = .unknownDependency raw.name what := by
  constructor
  · intro id raw
    obtain ⟨f, hf⟩ := File.exists_ofDescriptor id raw
    exact ⟨f, hf, File.ofDescriptor_faithful hf⟩
  · exact fun raws => ⟨exists_build_iff, fun e => build_eq_error_iff⟩

end Build

end ProtoJava.Schema
