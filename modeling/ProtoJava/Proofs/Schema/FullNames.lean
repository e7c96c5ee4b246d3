import Mathlib.Data.Prod.Lex
import ProtoJava.Proofs.Schema.Branching
import ProtoJava.Proofs.Schema.Placing
import ProtoJava.Proofs.Schema.Spelled

/-! # Full names

A full name is resolved to the first type that has it. Where siblings have different names without
dots, all types of a file have different full names, so each one is found by its own.
-/

namespace ProtoJava

/-- The names of the types that a message declares. -/
def Descriptor.Message.siblings (m : Descriptor.Message) : List String :=
  m.nested.map (·.name) ++ m.enums.map (·.name)

/-- The names of types are free of dots, and types that are declared side by side have different
ones. -/
structure Descriptor.File.SiblingsApart (raw : Descriptor.File) : Prop where
  messages_undotted : ∀ m ∈ Schema.preorders raw.messages, '.' ∉ m.name.toList
  enums_undotted : ∀ e ∈ raw.enums ++ (Schema.preorders raw.messages).flatMap (·.enums),
    '.' ∉ e.name.toList
  top : (raw.messages.map (·.name) ++ raw.enums.map (·.name)).Nodup
  nested : ∀ m ∈ Schema.preorders raw.messages, m.siblings.Nodup

namespace Schema

/-- The full name of a declared type, if there is one at that place. -/
def Graph.fullName? (g : Graph) : TypeRef → Option String
  | .message id => (g.files[id.file]?.bind (·.messages[id.index]?)).map (·.fullName)
  | .enum id => (g.files[id.file]?.bind (·.enums[id.index]?)).map (·.fullName)

/-- The full names of the types of a graph, in their order. -/
def Graph.fullNames (g : Graph) : List String :=
  g.files.flatMap fun f => f.messages.map (·.fullName) ++ f.enums.map (·.fullName)

/-- Where a type stands: files in turn, in a file its messages before its enums. -/
def TypeRef.rank : TypeRef → ℕ ×ₗ ℕ ×ₗ ℕ
  | .message id => toLex (id.file, toLex (0, id.index))
  | .enum id => toLex (id.file, toLex (1, id.index))

section Entries

variable {raws : List Descriptor.File} {g : Graph} (hg : Graph.build raws = .ok g)

theorem Graph.fullName?_message_iff {id : MessageId} {name : String} :
    g.fullName? (.message id) = some name ↔
      ∃ f m, g.files[id.file]? = some f ∧ f.messages[id.index]? = some m ∧ m.fullName = name := by
  simp [Graph.fullName?, Option.bind_eq_some_iff]

theorem Graph.fullName?_enum_iff {id : EnumId} {name : String} :
    g.fullName? (.enum id) = some name ↔
      ∃ f e, g.files[id.file]? = some f ∧ f.enums[id.index]? = some e ∧ e.fullName = name := by
  simp [Graph.fullName?, Option.bind_eq_some_iff]

include hg

theorem Graph.build_getElem?_id {k : Nat} {f : File} (hf : g.files[k]? = some f) : f.id = k := by
  obtain ⟨hk, rfl⟩ := List.getElem?_eq_some_iff.mp hf
  exact Graph.build_id hg hk

/-- The entries of the index are the types of the graph under their full names. -/
theorem Graph.mem_entries_iff {name : String} {ref : TypeRef} :
    (name, ref) ∈ g.index.entries ↔ g.fullName? ref = some name := by
  rw [Graph.index, List.mem_flatMap]
  constructor
  · rintro ⟨f, hf, hmem⟩
    obtain ⟨k, hf⟩ := List.mem_iff_getElem?.mp hf
    obtain rfl := Graph.build_getElem?_id hg hf
    rcases File.mem_named_iff.mp hmem with ⟨i, m, hm, hname, rfl⟩ | ⟨i, e, he, hname, rfl⟩
    · exact Graph.fullName?_message_iff.mpr ⟨f, m, hf, hm, hname⟩
    · exact Graph.fullName?_enum_iff.mpr ⟨f, e, hf, he, hname⟩
  · intro h
    cases ref with
    | message id =>
      obtain ⟨f, m, hf, hm, hname⟩ := Graph.fullName?_message_iff.mp h
      have hid := Graph.build_getElem?_id hg hf
      exact ⟨f, List.mem_of_getElem? hf,
        File.mem_named_iff.mpr (Or.inl ⟨id.index, m, hm, hname, by rw [hid]⟩)⟩
    | enum id =>
      obtain ⟨f, e, hf, he, hname⟩ := Graph.fullName?_enum_iff.mp h
      have hid := Graph.build_getElem?_id hg hf
      exact ⟨f, List.mem_of_getElem? hf,
        File.mem_named_iff.mpr (Or.inr ⟨id.index, e, he, hname, by rw [hid]⟩)⟩

omit hg in
theorem File.named_ascending (f : File) :
    f.named.Pairwise fun a b => a.2.rank < b.2.rank := by
  rw [File.named, List.pairwise_append]
  refine ⟨?messages, ?enums, ?across⟩
  case messages =>
    rw [List.pairwise_iff_getElem]
    intro i j hi hj hij
    simpa [TypeRef.rank, Prod.Lex.toLex_lt_toLex] using hij
  case enums =>
    rw [List.pairwise_iff_getElem]
    intro i j hi hj hij
    simpa [TypeRef.rank, Prod.Lex.toLex_lt_toLex] using hij
  case across =>
    intro x hx y hy
    obtain ⟨i, hi, rfl⟩ := List.mem_mapIdx.mp hx
    obtain ⟨j, hj, rfl⟩ := List.mem_mapIdx.mp hy
    simp [TypeRef.rank, Prod.Lex.toLex_lt_toLex]

omit hg in
theorem File.rank_of_mem_named {f : File} {entry : String × TypeRef} (h : entry ∈ f.named) :
    (ofLex entry.2.rank).1 = f.id := by
  rcases List.mem_append.mp h with h | h
  · obtain ⟨i, hi, rfl⟩ := List.mem_mapIdx.mp h
    rfl
  · obtain ⟨i, hi, rfl⟩ := List.mem_mapIdx.mp h
    rfl

theorem Graph.entries_ascending :
    g.index.entries.Pairwise fun a b => a.2.rank < b.2.rank := by
  rw [Graph.index, List.pairwise_flatMap]
  refine ⟨fun f _ => f.named_ascending, ?_⟩
  rw [List.pairwise_iff_getElem]
  intro i j hi hj hij x hx y hy
  have hx' := File.rank_of_mem_named hx
  have hy' := File.rank_of_mem_named hy
  rw [Graph.build_id hg hi] at hx'
  rw [Graph.build_id hg hj] at hy'
  exact Prod.Lex.lt_iff.mpr (Or.inl (by omega))

/-- A name is resolved to the first type that has it as its full name. -/
theorem Graph.resolve_eq_ok_iff {name : String} {ref : TypeRef} :
    g.index.resolve name = .ok ref ↔ g.fullName? ref = some name ∧
      ∀ other, g.fullName? other = some name → ref.rank ≤ other.rank := by
  have hlookup : g.index.resolve name = .ok ref ↔ g.index.entries.lookup name = some ref := by
    rw [Index.resolve]
    cases g.index.entries.lookup name <;> simp
  rw [hlookup, lookup_eq_some_iff_least (Graph.entries_ascending hg)]
  simp only [Graph.mem_entries_iff hg]

theorem Graph.resolve_eq_error_iff {name : String} {e : Error} :
    g.index.resolve name = .error e ↔
      e = .unresolvedType name ∧ ∀ ref, g.fullName? ref ≠ some name := by
  simp only [← Graph.mem_entries_iff hg, Ne]
  rw [Index.resolve]
  cases h : g.index.entries.lookup name with
  | some ref => exact iff_of_false (by simp) fun hn => hn.2 ref (mem_of_lookup h)
  | none =>
    rw [Except.error.injEq, eq_comm, and_iff_left]
    exact fun ref hmem => not_mem_of_lookup h (List.mem_map_of_mem hmem)

omit hg in
theorem Graph.index_names : g.index.entries.map (·.1) = g.fullNames := by
  rw [Graph.index, Graph.fullNames, List.map_flatMap]
  simp only [File.named_names]

/-- Where full names are different, each type is found by its own. -/
theorem Graph.resolve_fullName (hd : g.fullNames.Nodup) {name : String} {ref : TypeRef}
    (h : g.fullName? ref = some name) : g.index.resolve name = .ok ref := by
  rw [← Graph.index_names] at hd
  rw [Index.resolve, lookup_of_mem hd ((Graph.mem_entries_iff hg).mpr h)]

end Entries

section Siblings

/-- A name as it stands in a type name. -/
def nameCode (name : String) : List String :=
  [name]

theorem nameCode_isCode : IsCode nameCode where
  ne_nil _ := List.cons_ne_nil _ _
  unique h h' :=
    (List.cons.inj ((List.prefix_of_prefix_length_le h h' (Nat.le_refl _)).eq_of_length rfl)).1

/-- The type names of a node and of the enums that it declares. -/
def Node.typeNames (node : Node) : List (List String) :=
  node.typeName :: node.raw.enums.map fun e => node.typeName ++ nameCode e.name

mutual

/-- The types of a message have different type names, all of which go on from its own. -/
theorem flattenMessage_typeNames (stem : Stem) (start index : Nat) :
    ∀ m, (∀ m' ∈ preorder m, m'.siblings.Nodup) →
      Fan nameCode (· = m.name) stem.typeName
        ((flattenMessage stem start index m).flatMap Node.typeNames)
  | .mk name fields extensions nested enums ranges oneofs mapEntry deprecated => by
    intro h
    rw [preorder, List.forall_mem_cons] at h
    rw [flattenMessage]
    generalize hnode : stem.node index
      ⟨name, fields, extensions, nested, enums, ranges, oneofs, mapEntry, deprecated⟩ = node
    have hname : stem.typeName ++ nameCode name = node.typeName := by
      rw [← hnode]
      rfl
    have henums : node.raw.enums = enums := by
      rw [← hnode]
      rfl
    obtain ⟨hnames, henumNames, hapart⟩ := List.nodup_append'.mp h.1
    have hnested := flattenMessages_typeNames (node.stem start) (start + 1) 0 nested hnames h.2
    have hown : Fan nameCode (· ∈ enums.map (·.name)) node.typeName
        (enums.map fun e => node.typeName ++ nameCode e.name) :=
      Fan.map nameCode_isCode henumNames
    have hall := hown.append nameCode_isCode hnested fun s hs hs' => hapart hs' hs
    rw [← hname] at hall
    have hcons := hall.cons nameCode_isCode
    rw [hname, ← henums] at hcons
    exact hcons

theorem flattenMessages_typeNames (stem : Stem) (start index : Nat) :
    ∀ ms, (ms.map (·.name)).Nodup → (∀ m' ∈ preorders ms, m'.siblings.Nodup) →
      Fan nameCode (· ∈ ms.map (·.name)) stem.typeName
        ((flattenMessages stem start index ms).flatMap Node.typeNames)
  | [], _, _ => .nil
  | m :: r, hnames, h => by
    rw [List.map_cons, List.nodup_cons] at hnames
    rw [preorders, List.forall_mem_append] at h
    rw [flattenMessages, List.flatMap_append]
    have hhead := flattenMessage_typeNames stem start index m h.1
    have htail := flattenMessages_typeNames stem
      (start + (flattenMessage stem start index m).length) (index + 1) r hnames.2 h.2
    refine (hhead.append nameCode_isCode htail ?later).mono fun s hs => List.mem_cons.mpr hs
    rintro s rfl
    exact hnames.1

end

variable {id : Nat} {raw : Descriptor.File} {f : File}

theorem File.typeNames_perm (h : File.ofDescriptor id raw = .ok f) :
    (f.messages.map (·.typeName) ++ f.enums.map (·.typeName)).Perm
      ((nodesOf raw).flatMap Node.typeNames ++ raw.enums.map fun e => nameCode e.name) := by
  have hnode : ∀ m (node : Node), (node.enumTypes raw.package m).flatMap (fun e => [e.typeName]) =
      node.raw.enums.map fun e => node.typeName ++ nameCode e.name := by
    intro m node
    rw [← List.map_eq_flatMap, Node.enumTypes, map_mapIdx]
    exact mapIdx_eq_map (fun e : Descriptor.EnumType => node.typeName ++ nameCode e.name) _
  have htop : (topEnumTypes raw.package raw.enums).flatMap (fun e => [e.typeName]) =
      raw.enums.map fun e => nameCode e.name := by
    rw [← List.map_eq_flatMap, topEnumTypes, map_mapIdx]
    exact mapIdx_eq_map (fun e : Descriptor.EnumType => nameCode e.name) _
  have hperm := File.declarations_perm h (fun m => [m.typeName]) (fun e => [e.typeName])
    (fun node => [node.typeName]) _ (fun _ _ _ => rfl) hnode
  rwa [htop, ← List.map_eq_flatMap, ← List.map_eq_flatMap] at hperm

/-- All types of a file have different type names. -/
theorem File.typeNames_nodup (h : File.ofDescriptor id raw = .ok f) (hr : raw.SiblingsApart) :
    (f.messages.map (·.typeName) ++ f.enums.map (·.typeName)).Nodup := by
  obtain ⟨hmessages, henums, hapart⟩ := List.nodup_append'.mp hr.top
  have hnodes := flattenMessages_typeNames .top 0 0 raw.messages hmessages hr.nested
  have htop : Fan nameCode (· ∈ raw.enums.map (·.name)) []
      (raw.enums.map fun e => [] ++ nameCode e.name) := Fan.map nameCode_isCode henums
  rw [(File.typeNames_perm h).nodup_iff]
  exact (hnodes.append nameCode_isCode htop fun s hs hs' => hapart hs hs').nodup

theorem nodesOf_undotted (hr : raw.SiblingsApart) :
    ∀ node ∈ nodesOf raw, node.typeName ≠ [] ∧ ∀ t ∈ node.typeName, '.' ∉ t.toList := by
  intro node hn
  obtain ⟨hne, hnames⟩ := flattenMessages_namedWithin .top 0 0 raw.messages node hn
  refine ⟨hne, fun t ht => ?_⟩
  rcases hnames t ht with h | h
  · exact absurd h List.not_mem_nil
  · obtain ⟨inner, hi, rfl⟩ := List.mem_map.mp h
    exact hr.messages_undotted inner.raw (nodesOf_raws ▸ List.mem_map_of_mem hi)

theorem File.typeNames_undotted (h : File.ofDescriptor id raw = .ok f)
    (hr : raw.SiblingsApart) : ∀ names ∈ f.messages.map (·.typeName) ++ f.enums.map (·.typeName),
      names ≠ [] ∧ ∀ t ∈ names, '.' ∉ t.toList := by
  intro names hnames
  rcases List.mem_append.mp ((File.typeNames_perm h).mem_iff.mp hnames) with hn | hn
  · obtain ⟨node, hnode, hn⟩ := List.mem_flatMap.mp hn
    obtain ⟨hne, ht⟩ := nodesOf_undotted hr node hnode
    rcases List.mem_cons.mp hn with rfl | hn
    · exact ⟨hne, ht⟩
    · obtain ⟨e, he, rfl⟩ := List.mem_map.mp hn
      refine ⟨List.append_ne_nil_of_left_ne_nil hne _, List.forall_mem_append.mpr ⟨ht, ?_⟩⟩
      refine List.forall_mem_singleton.mpr (hr.enums_undotted e (List.mem_append_right _ ?_))
      exact List.mem_flatMap.mpr ⟨node.raw, nodesOf_raws ▸ List.mem_map_of_mem hnode, he⟩
  · obtain ⟨e, he, rfl⟩ := List.mem_map.mp hn
    refine ⟨List.cons_ne_nil _ _, List.forall_mem_singleton.mpr ?_⟩
    exact hr.enums_undotted e (List.mem_append_left _ he)

theorem fullName_inj {package : String} {names names' : List String} (hne : names ≠ [])
    (hne' : names' ≠ []) (h : ∀ t ∈ names, '.' ∉ t.toList) (h' : ∀ t ∈ names', '.' ∉ t.toList)
    (heq : fullName package names = fullName package names') : names = names' := by
  refine Text.joined_inj hne hne' h h' ?_
  unfold fullName at heq
  split at heq
  · exact (String.append_right_inj _).mp heq
  · exact (String.append_right_inj _).mp heq

theorem File.fullNames_eq (h : File.ofDescriptor id raw = .ok f) :
    f.messages.map (·.fullName) ++ f.enums.map (·.fullName) =
      (f.messages.map (·.typeName) ++ f.enums.map (·.typeName)).map (fullName raw.package) := by
  obtain ⟨-, he, -, -, hm⟩ := File.ofDescriptor_ok h
  have hmessage : ∀ m ∈ f.messages, m.fullName = fullName raw.package m.typeName := by
    intro m hmem
    rw [hm] at hmem
    obtain ⟨k, hk, rfl⟩ := List.mem_mapIdx.mp hmem
    rfl
  have henum : ∀ e ∈ f.enums, e.fullName = fullName raw.package e.typeName := by
    intro e hmem
    rw [he, enumsOf_eq] at hmem
    rcases List.mem_append.mp hmem with hmem | hmem
    · obtain ⟨k, hk, rfl⟩ := List.mem_mapIdx.mp hmem
      rfl
    · obtain ⟨es, hes, hmem⟩ := List.mem_flatten.mp hmem
      obtain ⟨m, hm, rfl⟩ := List.mem_mapIdx.mp hes
      obtain ⟨k, hk, rfl⟩ := List.mem_mapIdx.mp hmem
      rfl
  rw [List.map_append, List.map_map, List.map_map, List.map_congr_left hmessage,
    List.map_congr_left henum]
  rfl

/-- All types of a file have different full names. -/
theorem File.fullNames_nodup (h : File.ofDescriptor id raw = .ok f) (hr : raw.SiblingsApart) :
    (f.messages.map (·.fullName) ++ f.enums.map (·.fullName)).Nodup := by
  rw [File.fullNames_eq h]
  refine (File.typeNames_nodup h hr).map_on fun names hn names' hn' heq => ?_
  obtain ⟨hne, ht⟩ := File.typeNames_undotted h hr names hn
  obtain ⟨hne', ht'⟩ := File.typeNames_undotted h hr names' hn'
  exact fullName_inj hne hne' ht ht' heq

theorem Graph.build_fullNames_nodup {raws : List Descriptor.File} {g : Graph}
    (hg : Graph.build raws = .ok g) {i : Nat} (hf : g.files[i]? = some f)
    (hraw : raws[i]? = some raw) (hr : raw.SiblingsApart) :
    (f.messages.map (·.fullName) ++ f.enums.map (·.fullName)).Nodup := by
  obtain ⟨raw', f₀, hraw', h₀, hf⟩ := Graph.build_ok hg hf
  obtain rfl := Option.some.inj (hraw.symm.trans hraw')
  have hm : f.messages = f₀.messages := by rw [hf]
  have he : f.enums = f₀.enums := by rw [hf]
  rw [hm, he]
  exact File.fullNames_nodup h₀ hr

end Siblings

/-- A name is resolved to the first type with that full name, and to nothing just if there is none.
The full names in a file whose siblings have different names without dots are different, and each
type is found by its full name in a graph of one such file, as in any other without two types of
one full name. -/
theorem Graph.resolve_exact {raws : List Descriptor.File} {g : Graph}
    (hg : Graph.build raws = .ok g) :
    (∀ name ref, g.index.resolve name = .ok ref ↔ g.fullName? ref = some name ∧
      ∀ other, g.fullName? other = some name → ref.rank ≤ other.rank) ∧
    (∀ name e, g.index.resolve name = .error e ↔
      e = .unresolvedType name ∧ ∀ ref, g.fullName? ref ≠ some name) ∧
    (∀ (i : Nat) f raw, g.files[i]? = some f → raws[i]? = some raw → raw.SiblingsApart →
      (f.messages.map (·.fullName) ++ f.enums.map (·.fullName)).Nodup) ∧
    ((∃ raw, raws = [raw] ∧ raw.SiblingsApart) ∨ g.fullNames.Nodup →
      ∀ ref name, g.fullName? ref = some name → g.index.resolve name = .ok ref) := by
  refine ⟨fun _ _ => Graph.resolve_eq_ok_iff hg, fun _ _ => Graph.resolve_eq_error_iff hg,
    fun _ _ _ hf hraw hr => Graph.build_fullNames_nodup hg hf hraw hr, ?_⟩
  rintro (⟨raw, rfl, hr⟩ | hd) ref name href
  · obtain ⟨f, hf⟩ := List.length_eq_one_iff.mp (Graph.build_length hg)
    have hd : g.fullNames.Nodup := by
      rw [Graph.fullNames, hf, List.flatMap_singleton]
      exact Graph.build_fullNames_nodup hg (i := 0) (by rw [hf]; rfl) rfl hr
    exact Graph.resolve_fullName hg hd href
  · exact Graph.resolve_fullName hg hd href

/-- Two files that declare one name, of which the first declares other types around it. -/
def twins : List Descriptor.File := [
  { name := "one.proto"
    package := "pair"
    messages := [{ name := "Twin", nested := [{ name := "Twin" }], enums := [{ name := "Kind" }] }]
    enums := [{ name := "Kind" }] },
  { name := "two.proto", package := "pair", messages := [{ name := "Twin" }] }]

theorem Graph.resolve_exact_twins :
    ∃ g g', Graph.build twins = .ok g ∧ Graph.build [twins[0]] = .ok g' ∧
      g.index.resolve ".pair.Twin" = .ok (.message ⟨0, 0⟩) ∧
      g.fullName? (.message ⟨1, 0⟩) = some ".pair.Twin" ∧
      (∀ other, g.fullName? other = some ".pair.Twin" →
        (TypeRef.message ⟨0, 0⟩).rank ≤ other.rank) ∧
      (∀ ref, g.fullName? ref ≠ some ".pair.Kin") ∧
      (∀ f, g.files[0]? = some f →
        (f.messages.map (·.fullName) ++ f.enums.map (·.fullName)).Nodup) ∧
      ∀ ref name, g'.fullName? ref = some name → g'.index.resolve name = .ok ref := by
  let g := (Graph.build twins).toOption.getD default
  let g' := (Graph.build [twins[0]]).toOption.getD default
  have hg : Graph.build twins = .ok g := rfl
  have hg' : Graph.build [twins[0]] = .ok g' := rfl
  have hfirst : g.index.resolve ".pair.Twin" = .ok (.message ⟨0, 0⟩) := by decide +kernel
  have hnone : g.index.resolve ".pair.Kin" = .error (.unresolvedType ".pair.Kin") := by
    decide +kernel
  have hapart : twins[0].SiblingsApart :=
    ⟨by decide +kernel, by decide +kernel, by decide +kernel, by decide +kernel⟩
  obtain ⟨hok, herror, hnames, -⟩ := Graph.resolve_exact hg
  obtain ⟨-, -, -, hown⟩ := Graph.resolve_exact hg'
  exact ⟨g, g', hg, hg', hfirst, by decide +kernel, ((hok _ _).mp hfirst).2,
    ((herror _ _).mp hnone).2, fun f hf => hnames 0 f _ hf rfl hapart,
    hown (Or.inl ⟨_, rfl, hapart⟩)⟩

end Schema

end ProtoJava
