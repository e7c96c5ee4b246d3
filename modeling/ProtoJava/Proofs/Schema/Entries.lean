import ProtoJava.Proofs.Schema.Placing
import ProtoJava.Proofs.Schema.SourcePaths

/-! # Map entries

A map field is repeated, and of the type of a message that only serves as an entry of the map.
Entries hold no types, so nothing that stands in a message is inside of an entry, and the paths
below that of an entry are those of its own members.
-/

namespace ProtoJava

namespace Descriptor.Declaration

variable {m : Message} {c d : Declaration} {tag : Int} {i : Nat} {r : List Int}

/-- A field, an extension or a oneof. -/
def isMember : Declaration → Bool
  | field _ | extension _ | oneof _ => true
  | _ => false

/-- What a message without types declares are members in one of three lists. -/
theorem member_of_child? (hn : m.nested = []) (he : m.enums = [])
    (h : (message m).child? tag i = some c) : c.isMember ∧
      ((tag = Tag.messageField ∧ i < m.fields.length) ∨
        (tag = Tag.messageExtension ∧ i < m.extensions.length) ∨
        (tag = Tag.messageOneof ∧ i < m.oneofs.length)) := by
  unfold child? at h
  split at h
  case h_4 hm =>
    obtain rfl := message.inj hm
    obtain ⟨f, hf, rfl⟩ := Option.map_eq_some_iff.mp h
    exact ⟨rfl, Or.inl ⟨rfl, (List.getElem?_eq_some_iff.mp hf).1⟩⟩
  case h_5 hm =>
    obtain rfl := message.inj hm
    simp [hn] at h
  case h_6 hm =>
    obtain rfl := message.inj hm
    simp [he] at h
  case h_7 hm =>
    obtain rfl := message.inj hm
    obtain ⟨f, hf, rfl⟩ := Option.map_eq_some_iff.mp h
    exact ⟨rfl, Or.inr (Or.inl ⟨rfl, (List.getElem?_eq_some_iff.mp hf).1⟩)⟩
  case h_8 hm =>
    obtain rfl := message.inj hm
    obtain ⟨name, hf, rfl⟩ := Option.map_eq_some_iff.mp h
    exact ⟨rfl, Or.inr (Or.inr ⟨rfl, (List.getElem?_eq_some_iff.mp hf).1⟩)⟩
  all_goals simp_all

/-- No path leads on from a member. -/
theorem eq_nil_of_isMember (hc : c.isMember) (h : c.at? r = some d) : r = [] := by
  match r with
  | [] => rfl
  | [_] => exact nomatch h
  | tag :: i :: r =>
    obtain ⟨e, he, -⟩ := Option.bind_eq_some_iff.mp h
    obtain ⟨k, -, he⟩ := Option.bind_eq_some_iff.mp he
    cases c with
    | field | extension | oneof => exact nomatch he
    | _ => exact Bool.noConfusion hc

end Descriptor.Declaration

namespace Schema

open Descriptor (Declaration)

/-- The message that a field is of, if it is found. -/
def Graph.target? (g : Graph) (x : Field) : Option MessageId :=
  if x.type.isMessage then (g.index.resolveMessage x.typeName).toOption else none

/-- A field that may hold a map with the given entries: it is repeated and stands on its own, and
the entries have a scalar as their key, and a value. -/
structure Graph.MapField (g : Graph) (m : Option Message) (x : Field) (entry : MessageId) :
    Prop where
  isRepeated : x.isRepeated
  extendee : x.extendee = none
  union? : m.bind (·.union? x) = none
  key : ∃ key ∈ (g.message entry).fields.find? (·.number = 1), key.type.isNamed = false
  value : ((g.message entry).fields.find? (·.number = 2)).isSome

instance (g : Graph) (m : Option Message) (x : Field) (entry : MessageId) :
    Decidable (g.MapField m x entry) :=
  decidable_of_iff (x.isRepeated ∧ x.extendee = none ∧ m.bind (·.union? x) = none ∧
      (∃ key ∈ (g.message entry).fields.find? (·.number = 1), key.type.isNamed = false) ∧
      ((g.message entry).fields.find? (·.number = 2)).isSome)
    ⟨fun ⟨h₁, h₂, h₃, h₄, h₅⟩ => ⟨h₁, h₂, h₃, h₄, h₅⟩,
      fun ⟨h₁, h₂, h₃, h₄, h₅⟩ => ⟨h₁, h₂, h₃, h₄, h₅⟩⟩

/-- The map entries of a file hold no types. -/
structure File.LeafEntries (f : File) : Prop where
  nested : ∀ i, (f.message i).mapEntry → (f.message i).nested = []
  enums : ∀ i, (f.message i).mapEntry → (f.message i).enums = []

/-- Map entries hold no types, and only fields for maps are of them. -/
structure Graph.PlainMaps (g : Graph) : Prop where
  leaf : ∀ i, (g.file i).LeafEntries
  fields : ∀ m x, g.Declares m x → ∀ entry ∈ g.target? x, (g.message entry).mapEntry →
    g.MapField m x entry

/-- Moreover, the values of maps are no map entries. -/
structure Graph.RegularMaps (g : Graph) : Prop extends g.PlainMaps where
  values : ∀ m x, g.Declares m x → ∀ entry ∈ g.target? x, (g.message entry).mapEntry →
    ∀ value ∈ (g.message entry).fields.find? (·.number = 2), ∀ id ∈ g.target? value,
      (g.message id).mapEntry = false

section Checks

variable {g : Graph}

theorem Graph.forall_declares_iff {P : Option Message → Field → Prop} :
    (∀ m x, g.Declares m x → P m x) ↔ ∀ f ∈ g.files,
      (∀ m ∈ f.messages, ∀ x ∈ m.fields ++ m.extensions, P (some m) x) ∧
        ∀ x ∈ f.extensions, P none x := by
  constructor
  · intro h f hf
    refine ⟨fun m hm x hx => ?_, fun x hx => h _ _ (.fileExtension hf hx)⟩
    rcases List.mem_append.mp hx with hx | hx
    · exact h _ _ (.field hf hm hx)
    · exact h _ _ (.extension hf hm hx)
  · intro h m x hx
    cases hx with
    | field hf hm hx => exact (h _ hf).1 _ hm _ (List.mem_append_left _ hx)
    | extension hf hm hx => exact (h _ hf).1 _ hm _ (List.mem_append_right _ hx)
    | fileExtension hf hx => exact (h _ hf).2 _ hx

theorem Graph.leafEntries_of_forall (h : ∀ f ∈ g.files, ∀ m ∈ f.messages, m.mapEntry →
      m.nested = [] ∧ m.enums = []) (i : Nat) : (g.file i).LeafEntries := by
  have hall : ∀ j, ((g.file i).message j).mapEntry →
      ((g.file i).message j).nested = [] ∧ ((g.file i).message j).enums = [] := by
    intro j hm
    have hne : g.message ⟨i, j⟩ ≠ default := by
      intro hdefault
      change (g.message ⟨i, j⟩).mapEntry at hm
      rw [hdefault] at hm
      exact nomatch hm
    obtain ⟨file, hfile, hmem⟩ := g.exists_file hne
    exact h file hfile _ hmem hm
  exact ⟨fun j hm => (hall j hm).1, fun j hm => (hall j hm).2⟩

end Checks

namespace File.LeafEntries

variable {f : File} {i j p : Nat} (h : f.LeafEntries) (hl : f.Linked)

include h hl

theorem of_parent (hp : (f.message i).parent = some p) : (f.message p).mapEntry = false := by
  by_contra hentry
  have hi : i < f.messages.length := by
    by_contra hn
    rw [File.message_of_le (Nat.le_of_not_lt hn)] at hp
    exact nomatch hp
  have hmem := (hl.mem_nested_iff (Nat.lt_trans (hl.parent_lt i p hp) hi)).mpr ⟨hi, hp⟩
  rw [h.nested p (by simpa using hentry)] at hmem
  exact absurd hmem List.not_mem_nil

theorem of_enum_parent (hp : (f.enumType i).parent = some p) :
    (f.message p).mapEntry = false := by
  by_contra hentry
  have hi : i < f.enums.length := by
    by_contra hn
    rw [File.enumType_of_le (Nat.le_of_not_lt hn)] at hp
    exact nomatch hp
  have hmem := (hl.mem_enums_iff (hl.enum_parent_lt i p hp)).mpr ⟨hi, hp⟩
  rw [h.enums p (by simpa using hentry)] at hmem
  exact absurd hmem List.not_mem_nil

/-- What is around a message that is no entry are no entries. -/
theorem of_mem_enclosing (hi : (f.message i).mapEntry = false) (hj : j ∈ f.enclosing i) :
    (f.message j).mapEntry = false := by
  have hencloses := hl.mem_enclosing_iff.mp hj
  induction hencloses with
  | self => exact hi
  | parent hp hp' ih => exact ih (h.of_parent hl hp) (hl.mem_enclosing_iff.mpr hp')

end File.LeafEntries

/-- The paths of a file, of its declarations but for map entries, and of what these declare. -/
inductive File.Beside (f : File) : Path → Prop
  | file : f.Beside []
  | message {i : Nat} {q : Path} : i < f.messages.length → (f.message i).mapEntry = false →
      q ∈ (f.message i).paths → f.Beside q
  | enum {i : Nat} {q : Path} : i < f.enums.length → q ∈ (f.enumType i).paths → f.Beside q
  | extension {x : Field} : x ∈ f.extensions → f.Beside x.path

section Paths

variable {root d : Declaration} {q : Path} {m : Message} {raw : Descriptor.Message}

/-- A path below that of a message without types is that of one of its members. -/
theorem Node.mem_paths_of_prefix {node : Node} (hn : node.raw.nested = [])
    (he : node.raw.enums = []) (h : root.at? node.path = some (.message node.raw))
    (hq : root.at? q = some d) (hp : node.path <+: q) : q ∈ node.path :: node.memberPaths := by
  obtain ⟨r, rfl⟩ := hp
  rw [Declaration.at?_append h] at hq
  match r with
  | [] => simp
  | [_] => exact nomatch hq
  | tag :: i :: r =>
    obtain ⟨c, hc, hq⟩ := Option.bind_eq_some_iff.mp hq
    obtain ⟨k, hk, hc⟩ := Option.bind_eq_some_iff.mp hc
    obtain ⟨hmember, hlist⟩ := Declaration.member_of_child? hn he hc
    obtain rfl := Declaration.eq_nil_of_isMember hmember hq
    obtain rfl := Int.mem_toNat?.mp hk
    rw [List.mem_cons, Node.memberPaths, List.mem_append, List.mem_append]
    rcases hlist with ⟨rfl, hlt⟩ | ⟨rfl, hlt⟩ | ⟨rfl, hlt⟩
    · exact Or.inr (Or.inl (Or.inl (List.mem_mapIdx.mpr ⟨k, hlt, rfl⟩)))
    · exact Or.inr (Or.inl (Or.inr (List.mem_mapIdx.mpr ⟨k, hlt, rfl⟩)))
    · exact Or.inr (Or.inr (List.mem_mapIdx.mpr ⟨k, hlt, rfl⟩))

theorem Message.LedTo.exists_at? (h : m.LedTo root raw) (hq : q ∈ m.paths) :
    ∃ d, root.at? q = some d := by
  have hsome : ∀ {α β : Type} {l : List α} {l' : List β} {path : α → Path}
      {k : β → Declaration}, List.Forall₂ (fun a b => root.at? (path a) = some (k b)) l l' →
        q ∈ l.map path → ∃ d, root.at? q = some d := by
    intro α β l l' path k hl hq
    obtain ⟨a, ha, rfl⟩ := List.mem_map.mp hq
    obtain ⟨b, -, hb⟩ := forall₂_exists hl ha
    exact ⟨_, hb⟩
  rw [Message.paths, List.mem_cons, List.mem_append, List.mem_append] at hq
  rcases hq with rfl | (hq | hq) | hq
  · exact ⟨_, h.path⟩
  · exact hsome h.fields hq
  · exact hsome h.extensions hq
  · exact hsome h.oneofs hq

theorem EnumType.LedTo.exists_at? {e : EnumType} {raw : Descriptor.EnumType}
    (h : e.LedTo root raw) (hq : q ∈ e.paths) : ∃ d, root.at? q = some d := by
  rcases List.mem_cons.mp hq with rfl | hq
  · exact ⟨_, h.path⟩
  · obtain ⟨v, hv, rfl⟩ := List.mem_map.mp hq
    obtain ⟨r, -, hr⟩ := forall₂_exists h.values hv
    exact ⟨_, hr⟩

end Paths

section Files

variable {id : Nat} {raw : Descriptor.File} {f : File} {i : Nat} {q : Path}

/-- A path below that of an entry is that of the entry or of one of its members. -/
theorem File.mem_paths_of_prefix (h : File.ofDescriptor id raw = .ok f) (hf : f.LeafEntries)
    (hi : i < f.messages.length) (hm : (f.message i).mapEntry) {d : Declaration}
    (hq : (Declaration.file raw).at? q = some d) (hp : (f.message i).path <+: q) :
    q ∈ (f.message i).paths := by
  obtain ⟨node, hnode⟩ := File.node_of_lt h hi
  have hmessage := File.message_of_node h hnode
  have hpath : (f.message i).path = node.path := by
    rw [hmessage]
    rfl
  have hpaths : (f.message i).paths = node.path :: node.memberPaths := by
    rw [hmessage]
    exact Message.ofNode_paths raw.package (nodesOf raw) node
  have hfaithful := File.ofDescriptor_faithful h
  have hraw : (preorders raw.messages)[i]? = some node.raw := by
    rw [getElem?_preorders, hnode]
    rfl
  have hnested := hfaithful.nested_declared i node.raw hraw
  have henums := hfaithful.attached_declared i node.raw hraw
  rw [hf.nested i hm, List.map_nil, List.nil_eq, List.map_eq_nil_iff] at hnested
  rw [hf.enums i hm, List.map_nil, List.forall₂_nil_left_iff] at henums
  rw [hpath] at hp
  rw [hpaths]
  exact Node.mem_paths_of_prefix hnested henums
    (nodesOf_ledTo node (List.mem_of_getElem? hnode)) hq hp

theorem File.lt_of_mapEntry (hm : (f.message i).mapEntry) : i < f.messages.length := by
  by_contra hn
  rw [File.message_of_le (Nat.le_of_not_lt hn)] at hm
  exact nomatch hm

/-- What is no part of a map entry has no path below that of one. -/
theorem File.Beside.not_below (hq : f.Beside q) (h : File.ofDescriptor id raw = .ok f)
    (hf : f.LeafEntries) (hm : (f.message i).mapEntry) : ¬ (f.message i).path <+: q := by
  have hi := File.lt_of_mapEntry hm
  have hmem := File.message_mem hi
  have hlocated := File.ofDescriptor_located h
  obtain ⟨htypes, -, hextensions⟩ := List.nodup_append'.mp hlocated.distinct
  obtain ⟨hmessages, -, henums⟩ := List.nodup_append'.mp htypes
  have hown : ∀ q ∈ (f.message i).paths, q ∈ f.messages.flatMap Message.paths :=
    fun q hq => List.mem_flatMap.mpr ⟨_, hmem, hq⟩
  intro hp
  cases hq with
  | file =>
    obtain ⟨raw', -, hled⟩ := forall₂_exists hlocated.messages hmem
    have hpath := hled.path
    rw [List.prefix_nil.mp hp] at hpath
    exact nomatch hpath
  | message hj hentry hq =>
    obtain ⟨raw', -, hled⟩ := forall₂_exists hlocated.messages (File.message_mem hj)
    obtain ⟨d, hd⟩ := hled.exists_at? hq
    have hbelow := File.mem_paths_of_prefix h hf hi hm hd hp
    rw [← eq_of_mem_flatMap hmessages (File.message_mem hj) hmem hq hbelow, hentry] at hm
    exact nomatch hm
  | enum hj hq =>
    obtain ⟨raw', -, hled⟩ := forall₂_exists hlocated.enums (File.enumType_mem hj)
    obtain ⟨d, hd⟩ := hled.exists_at? hq
    have hbelow := File.mem_paths_of_prefix h hf hi hm hd hp
    exact henums (hown _ hbelow) (List.mem_flatMap.mpr ⟨_, File.enumType_mem hj, hq⟩)
  | extension hx =>
    obtain ⟨raw', -, hd⟩ := forall₂_exists hlocated.extensions_path hx
    have hbelow := File.mem_paths_of_prefix h hf hi hm hd hp
    exact hextensions (List.mem_append_left _ (hown _ hbelow)) (List.mem_map_of_mem hx)

end Files

section Built

variable {raws : List Descriptor.File} {g : Graph} {i e : Nat} {q : Path}

/-- In a built graph what is no part of a map entry has no path below that of one. -/
theorem Graph.PlainMaps.not_below (hg : Graph.build raws = .ok g) (h : g.PlainMaps)
    (hq : (g.file i).Beside q) (hm : ((g.file i).message e).mapEntry) :
    ¬ ((g.file i).message e).path <+: q := by
  have hi : i < g.files.length := by
    by_contra hn
    simp [Graph.file, Nat.le_of_not_lt hn, File.message] at hm
  obtain ⟨raw, f, -, hf, hfile⟩ := Graph.build_ok hg (List.getElem?_eq_getElem hi)
  have hleaf := h.leaf i
  rw [Graph.file_eq_getElem hi, hfile] at hq hm hleaf ⊢
  have hleaf : f.LeafEntries := ⟨hleaf.nested, hleaf.enums⟩
  have hq : f.Beside q := by
    cases hq with
    | file => exact .file
    | message hj hentry hq => exact .message hj hentry hq
    | enum hj hq => exact .enum hj hq
    | extension hx => exact .extension hx
  exact hq.not_below hf hleaf hm

end Built

end Schema

end ProtoJava
