import Mathlib.Data.List.Perm.Basic
import ProtoJava.Proofs.Schema.Flattening

/-! # The arenas of a file

Every descriptor of a file has a schema: linking never fails on what the walk lays out. In the
schema the tree of messages can be read off the parents, children stand in the order of their
declaration, and type names extend those around them.
-/

namespace ProtoJava.Schema

/-- A message has the data of its descriptor, but only counts what is nested in it. -/
structure Message.Describes (m : Message) (raw : Descriptor.Message) : Prop where
  name : m.name = raw.name
  fields : m.fields = fieldsOf m.path Descriptor.Tag.messageField raw.fields
  extensions : m.extensions = fieldsOf m.path Descriptor.Tag.messageExtension raw.extensions
  oneofs : m.oneofs.map (·.name) = raw.oneofs
  declaredNested : m.declaredNested = raw.nested.length
  declaredEnums : m.declaredEnums = raw.enums.length
  mapEntry : m.mapEntry = raw.mapEntry
  deprecated : m.deprecated = raw.deprecated
  extensionRanges : m.extensionRanges = raw.extensionRanges.map fun r => (r.start, r.stop)

structure EnumType.Describes (e : EnumType) (raw : Descriptor.EnumType) : Prop where
  name : e.name = raw.name
  values : e.values = enumValues e.path raw.values
  deprecated : e.deprecated = raw.deprecated

/-- The type name of what a declaration is nested in. -/
def File.outerName (f : File) : Option Nat → List String
  | none => []
  | some p => (f.message p).typeName

/-- The arenas of a file hold the declarations of a descriptor, nested as they are there. -/
structure File.Faithful (f : File) (raw : Descriptor.File) : Prop where
  messages : List.Forall₂ Message.Describes f.messages (preorders raw.messages)
  parent_lt : ∀ i p, (f.message i).parent = some p → p < i
  /-- The messages that are not nested are those of the file itself, in order. -/
  top : f.topMessages.map ((preorders raw.messages)[·]?) = raw.messages.map some
  /-- What is nested in a message are the messages that name it as their parent, ascending. -/
  nested : ∀ p < f.messages.length, (f.message p).nested =
    (List.range f.messages.length).filter fun i => (f.message i).parent = some p
  /-- They are the messages that its descriptor nests, in order. -/
  nested_declared : ∀ p m, (preorders raw.messages)[p]? = some m →
    (f.message p).nested.map ((preorders raw.messages)[·]?) = m.nested.map some
  nested_index : ∀ p < f.messages.length,
    (f.message p).nested.map (fun i => (f.message i).index) = List.range (f.message p).nested.length
  nested_length : ∀ p < f.messages.length,
    (f.message p).nested.length = (f.message p).declaredNested
  enums : List.Forall₂ EnumType.Describes f.enums
    (raw.enums ++ (preorders raw.messages).flatMap (·.enums))
  enums_parent : f.enums.map (·.parent) = raw.enums.map (fun _ => none) ++
    (preorders raw.messages).zipIdx.flatMap fun x => x.1.enums.map fun _ => some x.2
  /-- The enums of a message are those that name it as their parent, ascending. -/
  attached : ∀ p < f.messages.length, (f.message p).enums =
    (List.range f.enums.length).filter fun i => (f.enumType i).parent = some p
  /-- They are the enums that its descriptor declares, in order. -/
  attached_declared : ∀ p m, (preorders raw.messages)[p]? = some m →
    List.Forall₂ EnumType.Describes ((f.message p).enums.map f.enumType) m.enums
  typeName : ∀ i < f.messages.length, (f.message i).typeName =
    f.outerName (f.message i).parent ++ [(f.message i).name]
  enum_typeName : ∀ i < f.enums.length, (f.enumType i).typeName =
    f.outerName (f.enumType i).parent ++ [(f.enumType i).name]

section Enums

variable {package : String} {raw : List Descriptor.EnumType} {nodes : List Node}

/-- The enums declared in the message of a node at position `m`. -/
def Node.enumTypes (package : String) (m : Nat) (node : Node) : List EnumType :=
  node.raw.enums.mapIdx fun i e =>
    EnumType.ofDescriptor package (some m) node.typeName
      (node.path ++ [Descriptor.Tag.messageEnum, (i : Int)]) i e

/-- The enums declared in a file outside of messages. -/
def topEnumTypes (package : String) (raw : List Descriptor.EnumType) : List EnumType :=
  raw.mapIdx fun i e =>
    EnumType.ofDescriptor package none [] [Descriptor.Tag.fileEnum, (i : Int)] i e

theorem enumsOf_eq : enumsOf package raw nodes =
    topEnumTypes package raw ++ (nodes.mapIdx (Node.enumTypes package)).flatten :=
  rfl

/-- Of lists of elements that know their list, the elements that know list `p`. -/
theorem filter_flatten_mapIdx {α β : Type} {g : Nat → α → List β} {q : β → Bool} {p : Nat}
    {l : List α} (h : ∀ i a, ∀ b ∈ g i a, q b = decide (i = p)) :
    (l.mapIdx g).flatten.filter q = (l[p]?.map (g p)).getD [] := by
  induction l generalizing g p with
  | nil => rfl
  | cons a l ih =>
    rw [List.mapIdx_cons, List.flatten_cons, List.filter_append]
    cases p with
    | zero =>
      have hrest : ∀ i a, ∀ b ∈ g (i + 1) a, q b = false := fun i a b hb => by simp [h _ _ b hb]
      have hhead : (g 0 a).filter q = g 0 a :=
        List.filter_eq_self.mpr fun b hb => by simp [h _ _ b hb]
      have htail : (l.mapIdx fun i => g (i + 1)).flatten.filter q = [] := by
        apply List.filter_eq_nil_iff.mpr
        intro b hb
        obtain ⟨bs, hbs, hb⟩ := List.mem_flatten.mp hb
        obtain ⟨i, hi, rfl⟩ := List.mem_mapIdx.mp hbs
        simp [hrest i _ b hb]
      rw [hhead, htail, List.append_nil]
      rfl
    | succ p =>
      have hhead : (g 0 a).filter q = [] :=
        List.filter_eq_nil_iff.mpr fun b hb => by simp [h _ _ b hb]
      rw [hhead, List.nil_append, ih fun i a b hb => by simpa using h (i + 1) a b hb]
      rfl

theorem enumsOf_under {p : Nat} {node : Node} (h : nodes[p]? = some node) :
    (enumsOf package raw nodes).filter (·.parent = some p) = node.enumTypes package p := by
  have htop : (topEnumTypes package raw).filter (·.parent = some p) = [] := by
    apply List.filter_eq_nil_iff.mpr
    intro e he
    obtain ⟨k, hk, rfl⟩ := List.mem_mapIdx.mp he
    simp [EnumType.ofDescriptor]
  have hnested : (nodes.mapIdx (Node.enumTypes package)).flatten.filter (·.parent = some p) =
      (nodes[p]?.map (Node.enumTypes package p)).getD [] := by
    apply filter_flatten_mapIdx
    intro i node e he
    obtain ⟨k, hk, rfl⟩ := List.mem_mapIdx.mp he
    simp [EnumType.ofDescriptor]
  rw [enumsOf_eq, List.filter_append, htop, hnested, h]
  rfl

theorem EnumType.ofDescriptor_describes (package : String) (parent : Option Nat)
    (outer : List String) (path : Path) (i : Nat) (raw : Descriptor.EnumType) :
    (EnumType.ofDescriptor package parent outer path i raw).Describes raw :=
  ⟨rfl, rfl, rfl⟩

theorem enumTypes_describes (m : Nat) (node : Node) :
    List.Forall₂ EnumType.Describes (node.enumTypes package m) node.raw.enums :=
  forall₂_mapIdx fun _ _ _ => EnumType.ofDescriptor_describes ..

theorem topEnumTypes_describes :
    List.Forall₂ EnumType.Describes (topEnumTypes package raw) raw :=
  forall₂_mapIdx fun _ _ _ => EnumType.ofDescriptor_describes ..

theorem enumsOf_describes :
    List.Forall₂ EnumType.Describes (enumsOf package raw nodes)
      (raw ++ (nodes.map (·.raw)).flatMap (·.enums)) := by
  rw [enumsOf_eq, List.flatMap_map]
  refine List.rel_append topEnumTypes_describes (List.rel_flatten ?_)
  rw [List.forall₂_map_right_iff]
  exact forall₂_mapIdx fun i node _ => enumTypes_describes i node

theorem enumsOf_parent :
    (enumsOf package raw nodes).map (·.parent) = raw.map (fun _ => none) ++
      (nodes.map (·.raw)).zipIdx.flatMap fun x => x.1.enums.map fun _ => some x.2 := by
  have htop : (topEnumTypes package raw).map (·.parent) = raw.map fun _ => none := by
    apply List.ext_getElem <;> simp [topEnumTypes, EnumType.ofDescriptor]
  have hnode : ∀ m (node : Node), (node.enumTypes package m).map (·.parent) =
      node.raw.enums.map fun _ => some m := by
    intro m node
    apply List.ext_getElem <;> simp [Node.enumTypes, EnumType.ofDescriptor]
  have hnested : ∀ (n : Nat) (l : List Node),
      (l.mapIdx fun i => Node.enumTypes package (n + i)).flatten.map (·.parent) =
        ((l.map (·.raw)).zipIdx n).flatMap fun x => x.1.enums.map fun _ => some x.2 := by
    intro n l
    induction l generalizing n with
    | nil => rfl
    | cons node l ih =>
      have hrest := ih (n + 1)
      simp only [Nat.add_right_comm n 1, Nat.add_assoc n] at hrest
      rw [List.mapIdx_cons, List.flatten_cons, List.map_append, hrest, hnode]
      rfl
  rw [enumsOf_eq, List.map_append, htop, ← hnested 0 nodes]
  simp

theorem enumsOf_typeName : ∀ e ∈ enumsOf package raw nodes,
    (e.parent = none ∧ e.typeName = [e.name]) ∨ ∃ p node, e.parent = some p ∧
      nodes[p]? = some node ∧ e.typeName = node.typeName ++ [e.name] := by
  intro e he
  rcases List.mem_append.mp (enumsOf_eq ▸ he) with he | he
  · obtain ⟨k, hk, rfl⟩ := List.mem_mapIdx.mp he
    exact Or.inl ⟨rfl, rfl⟩
  · obtain ⟨es, hes, he⟩ := List.mem_flatten.mp he
    obtain ⟨m, hm, rfl⟩ := List.mem_mapIdx.mp hes
    obtain ⟨k, hk, rfl⟩ := List.mem_mapIdx.mp he
    exact Or.inr ⟨m, _, rfl, List.getElem?_eq_getElem hm, rfl⟩

end Enums

section Linking

variable {package : String} {raw : Descriptor.File}

/-- The nodes of a file. -/
abbrev nodesOf (raw : Descriptor.File) : List Node :=
  flattenMessages .top 0 0 raw.messages

theorem Stem.before_top : Stem.top.Before 0 :=
  fun _ h => nomatch h

theorem nodesOf_parent_lt {i p : Nat} {node : Node} (hi : (nodesOf raw)[i]? = some node)
    (hp : node.parent = some p) : p < i := by
  rcases flattenMessages_parents .top 0 0 raw.messages i node hi with h | ⟨q, h, -, hlt⟩
  · rw [hp] at h
    exact nomatch h
  · rw [hp] at h
    obtain rfl := Option.some.inj h
    omega

theorem nodesOf_nests {p : Nat} {node : Node} (h : (nodesOf raw)[p]? = some node) :
    declaredUnder (nodesOf raw) (some p) = node.raw.nested.zipIdx := by
  have := flattenMessages_nests .top 0 Stem.before_top 0 raw.messages p node h
  rwa [Nat.zero_add] at this

/-- The messages nested in a message are as many as it declares. -/
theorem length_nested {p : Nat} {node : Node} (h : (nodesOf raw)[p]? = some node) :
    (childrenOf ((nodesOf raw).map (·.parent)) p).length = node.raw.nested.length := by
  have hlength := congrArg List.length (nodesOf_nests h)
  rw [declaredUnder, List.length_map, List.length_zipIdx] at hlength
  rw [length_childrenOf, hlength]

theorem length_attached {nodes : List Node} {raws : List Descriptor.EnumType} {p : Nat}
    {node : Node} (h : nodes[p]? = some node) :
    (childrenOf ((enumsOf package raws nodes).map (·.parent)) p).length =
      node.raw.enums.length := by
  rw [length_childrenOf, enumsOf_under h, Node.enumTypes, List.length_mapIdx]

theorem exists_linkNested (package : String) (raw : Descriptor.File) :
    ∃ ms, linkNested ((nodesOf raw).map (Message.ofNode package (nodesOf raw))) = (ms, none) := by
  apply exists_linkAll
  case hp =>
    intro c hc p hp
    obtain ⟨m, hm, rfl⟩ := List.mem_map.mp hc
    obtain ⟨node, hn, rfl⟩ := List.mem_map.mp hm
    obtain ⟨i, hi, rfl⟩ := List.mem_iff_getElem.mp hn
    have := nodesOf_parent_lt (List.getElem?_eq_getElem hi) hp
    rw [List.length_map]
    omega
  case h =>
    intro k m hk
    rw [List.getElem?_map, Option.map_eq_some_iff] at hk
    obtain ⟨node, hn, rfl⟩ := hk
    refine ⟨_, if_pos ?_⟩
    simp only [List.map_map, Function.comp_def, Message.ofNode]
    exact length_nested hn

theorem exists_linkEnums (package : String) (raws : List Descriptor.EnumType) {ms : List Message}
    (hms : ms.map (·.declaredEnums) = (nodesOf raw).map (·.raw.enums.length)) :
    ∃ ms', linkEnums ms (enumsOf package raws (nodesOf raw)) = (ms', none) := by
  have hlength : ms.length = (nodesOf raw).length := by simpa using congrArg List.length hms
  apply exists_linkAll
  case hp =>
    intro c hc p hp
    obtain ⟨e, he, rfl⟩ := List.mem_map.mp hc
    rcases enumsOf_typeName e he with ⟨hnone, -⟩ | ⟨q, node, hq, hn, -⟩
    · exact nomatch hnone.symm.trans hp
    · obtain rfl := Option.some.inj (hq.symm.trans hp)
      exact hlength ▸ (List.getElem?_eq_some_iff.mp hn).1
  case h =>
    intro k m hk
    have hdeclared : (ms.map (·.declaredEnums))[k]? = some m.declaredEnums := by simp [hk]
    rw [hms, List.getElem?_map, Option.map_eq_some_iff] at hdeclared
    obtain ⟨node, hn, hdeclared⟩ := hdeclared
    refine ⟨_, if_pos ?_⟩
    simp only [List.map_map, Function.comp_def]
    rw [length_attached hn, hdeclared]

/-- Every descriptor of a file has a schema. -/
theorem File.exists_ofDescriptor (id : Nat) (raw : Descriptor.File) :
    ∃ f, File.ofDescriptor id raw = .ok f := by
  obtain ⟨nested, hn⟩ := exists_linkNested raw.package raw
  have hdeclared : nested.map (·.declaredEnums) = (nodesOf raw).map (·.raw.enums.length) := by
    rw [linkNested_ok hn]
    apply List.ext_getElem <;> simp [Message.ofNode]
  obtain ⟨ms, hm⟩ := exists_linkEnums raw.package raw.enums hdeclared
  have h : ∃ f, File.ofDescriptor id raw = .ok f := by
    simp only [File.ofDescriptor, bind_eq_ok_iff, pure_eq_ok_iff, linked_eq_ok_iff]
    exact ⟨_, nested, hn, ms, hm, rfl⟩
  exact h

end Linking

section Faithful

variable {id : Nat} {raw : Descriptor.File} {f : File}

/-- A message of a file is that of its node, with what is nested in it. -/
theorem File.message_of_node (h : File.ofDescriptor id raw = .ok f) {i : Nat} {node : Node}
    (hi : (nodesOf raw)[i]? = some node) :
    f.message i = { Message.ofNode raw.package (nodesOf raw) node with
      nested := childrenOf ((nodesOf raw).map (·.parent)) i
      enums := childrenOf (f.enums.map (·.parent)) i } := by
  obtain ⟨-, -, -, -, hm⟩ := File.ofDescriptor_ok h
  obtain ⟨hi, rfl⟩ := List.getElem?_eq_some_iff.mp hi
  simp [File.message, hm, hi]

theorem File.length_messages (h : File.ofDescriptor id raw = .ok f) :
    f.messages.length = (nodesOf raw).length := by
  obtain ⟨-, -, -, -, hm⟩ := File.ofDescriptor_ok h
  simp [hm]

theorem nodesOf_raws : (nodesOf raw).map (·.raw) = preorders raw.messages :=
  flattenMessages_raws ..

theorem getElem?_preorders {i : Nat} :
    (preorders raw.messages)[i]? = (nodesOf raw)[i]?.map (·.raw) := by
  rw [← nodesOf_raws, List.getElem?_map]

theorem File.node_of_lt (h : File.ofDescriptor id raw = .ok f) {i : Nat}
    (hi : i < f.messages.length) : ∃ node, (nodesOf raw)[i]? = some node :=
  ⟨_, List.getElem?_eq_getElem (File.length_messages h ▸ hi)⟩

/-- The descriptors at positions that hold nodes of one parent are those declared there. -/
theorem map_raws {positions : List Nat} {p : Option Nat}
    (h : positions.map ((nodesOf raw)[·]?) =
      ((nodesOf raw).filter (·.parent = p)).map some) :
    positions.map ((preorders raw.messages)[·]?) =
      ((declaredUnder (nodesOf raw) p).map Prod.fst).map some := by
  have := congrArg (List.map (Option.map fun node : Node => node.raw)) h
  simpa [declaredUnder, getElem?_preorders, Function.comp_def] using this

theorem File.ofDescriptor_typeName (h : File.ofDescriptor id raw = .ok f) {i : Nat}
    (hi : i < f.messages.length) :
    (f.message i).typeName = f.outerName (f.message i).parent ++ [(f.message i).name] := by
  obtain ⟨node, hn⟩ := File.node_of_lt h hi
  rw [File.message_of_node h hn]
  rcases flattenMessages_grown .top 0 0 raw.messages node (List.mem_of_getElem? hn) with
    hg | ⟨k, outer, hk, hg⟩
  · rw [hg]
    rfl
  · rw [Nat.zero_add] at hg
    rw [hg]
    change outer.typeName ++ _ = (f.message k).typeName ++ _
    rw [File.message_of_node h hk]
    rfl

theorem File.ofDescriptor_enum_typeName (h : File.ofDescriptor id raw = .ok f) {i : Nat}
    (hi : i < f.enums.length) :
    (f.enumType i).typeName = f.outerName (f.enumType i).parent ++ [(f.enumType i).name] := by
  obtain ⟨-, he, -⟩ := File.ofDescriptor_ok h
  have hmem : f.enumType i ∈ enumsOf raw.package raw.enums (nodesOf raw) := by
    rw [← he, File.enumType_eq_getElem hi]
    exact List.getElem_mem hi
  rcases enumsOf_typeName _ hmem with ⟨hp, ht⟩ | ⟨p, node, hp, hn, ht⟩
  · rw [hp, ht]
    rfl
  · rw [hp, ht]
    change _ = (f.message p).typeName ++ _
    rw [File.message_of_node h hn]
    rfl

theorem File.parents_eq (h : File.ofDescriptor id raw = .ok f) :
    f.messages.map (·.parent) = (nodesOf raw).map (·.parent) := by
  obtain ⟨-, -, -, -, hm⟩ := File.ofDescriptor_ok h
  rw [hm]
  apply List.ext_getElem <;> simp [Message.ofNode]

theorem Message.ofNode_describes (package : String) (nodes : List Node) (node : Node)
    (nested enums : List Nat) :
    { Message.ofNode package nodes node with nested, enums }.Describes node.raw := by
  constructor
  case oneofs =>
    apply List.ext_getElem <;> simp [Message.ofNode, Oneof.ofName]
  all_goals rfl

theorem File.ofDescriptor_describes (h : File.ofDescriptor id raw = .ok f) :
    List.Forall₂ Message.Describes f.messages (preorders raw.messages) := by
  obtain ⟨-, -, -, -, hm⟩ := File.ofDescriptor_ok h
  rw [← nodesOf_raws, hm, List.forall₂_map_right_iff]
  exact forall₂_mapIdx fun i node _ => Message.ofNode_describes ..

/-- The nodes that name a node as their parent have the positions of their declarations. -/
theorem File.nested_index (h : File.ofDescriptor id raw = .ok f) {p : Nat} {node : Node}
    (hn : (nodesOf raw)[p]? = some node) :
    (childrenOf ((nodesOf raw).map (·.parent)) p).map (fun i => (f.message i).index) =
      List.range node.raw.nested.length := by
  have hindex : ∀ i ∈ childrenOf ((nodesOf raw).map (·.parent)) p,
      (f.message i).index = ((nodesOf raw)[i]?.map (·.index)).getD 0 := by
    intro i hi
    obtain ⟨child, hc, -⟩ := Option.map_eq_some_iff.mp
      ((List.getElem?_map ..).symm.trans (mem_childrenOf.mp hi))
    rw [File.message_of_node h hc, hc]
    rfl
  have hunder := congrArg (List.map Prod.snd) (nodesOf_nests hn)
  rw [List.zipIdx_map_snd, declaredUnder, List.map_map] at hunder
  calc (childrenOf ((nodesOf raw).map (·.parent)) p).map (fun i => (f.message i).index)
      = ((childrenOf ((nodesOf raw).map (·.parent)) p).map ((nodesOf raw)[·]?)).map
          fun n => (n.map (·.index)).getD 0 := by
        rw [List.map_map]
        exact List.map_congr_left hindex
    _ = ((nodesOf raw).filter (·.parent = some p)).map (·.index) := by
        rw [map_childrenOf, List.map_map]
        rfl
    _ = List.range node.raw.nested.length := by
        rw [List.range_eq_range', ← hunder]
        rfl

/-- Positions of a kind of elements, where the elements are read with a default. -/
theorem filter_range_getD {α : Type} (l : List α) (d : α) (q : α → Bool) :
    ((List.range l.length).filter fun i => l[i]?.any q) =
      (List.range l.length).filter fun i => q (l.getD i d) := by
  apply List.filter_congr
  intro i hi
  rw [List.getD_eq_getElem?_getD, List.getElem?_eq_getElem (List.mem_range.mp hi)]
  rfl

/-- The messages that are not nested are those declared in the file itself. -/
theorem File.topMessages_declared (h : File.ofDescriptor id raw = .ok f) :
    f.topMessages.map ((preorders raw.messages)[·]?) = raw.messages.map some := by
  have hpositions : f.topMessages.map ((nodesOf raw)[·]?) =
      ((nodesOf raw).filter (·.parent = none)).map some := by
    rw [File.topMessages, ← positions_map (·.parent) f.messages Option.isNone,
      File.parents_eq h, positions_map (·.parent) (nodesOf raw) Option.isNone,
      map_positions (nodesOf raw) fun node => node.parent.isNone]
    congr 1
    apply List.filter_congr
    intro node _
    cases node.parent <;> rfl
  have hunder := flattenMessages_under .top 0 Stem.before_top 0 raw.messages
  rw [map_raws hpositions, show (none : Option Nat) = Stem.top.parent from rfl, hunder,
    List.zipIdx_map_fst]

/-- The enums attached to a message are those that its node declares. -/
theorem File.map_enumType (h : File.ofDescriptor id raw = .ok f) {p : Nat} {node : Node}
    (hn : (nodesOf raw)[p]? = some node) :
    (f.message p).enums.map f.enumType = node.enumTypes raw.package p := by
  obtain ⟨-, he, -, -, -⟩ := File.ofDescriptor_ok h
  have hget := congrArg (List.map fun e : Option EnumType => e.getD {})
    (map_childrenOf f.enums (·.parent) p)
  rw [List.map_map, List.map_map] at hget
  have hmap : (f.message p).enums.map f.enumType =
      (f.enums.filter (·.parent = some p)).map fun e => e := by
    rw [File.message_of_node h hn]
    exact hget
  rw [hmap, List.map_id', he, enumsOf_under hn]

/-- What is read off the messages and enums of a file is read off its nodes, and off the enums that
are declared outside of messages. -/
theorem File.declarations_perm {γ : Type} (h : File.ofDescriptor id raw = .ok f)
    (ofMessage : Message → List γ) (ofEnum : EnumType → List γ) (own ofEnums : Node → List γ)
    (hmessage : ∀ node nested enums,
      ofMessage { Message.ofNode raw.package (nodesOf raw) node with nested, enums } = own node)
    (henum : ∀ m node, (Node.enumTypes raw.package m node).flatMap ofEnum = ofEnums node) :
    (f.messages.flatMap ofMessage ++ f.enums.flatMap ofEnum).Perm
      ((nodesOf raw).flatMap (fun node => own node ++ ofEnums node) ++
        (topEnumTypes raw.package raw.enums).flatMap ofEnum) := by
  obtain ⟨-, he, -, -, hm⟩ := File.ofDescriptor_ok h
  have hmessages : f.messages.flatMap ofMessage = (nodesOf raw).flatMap own := by
    rw [hm, List.flatMap_def, map_mapIdx, List.flatMap_def, ← mapIdx_eq_map own]
    refine congrArg (fun g => (List.mapIdx g (nodesOf raw)).flatten) (funext₂ fun i node => ?_)
    exact hmessage node ..
  have hnested : ((nodesOf raw).mapIdx (Node.enumTypes raw.package)).flatten.flatMap ofEnum =
      (nodesOf raw).flatMap ofEnums := by
    rw [List.mapIdx_eq_zipIdx_map, ← List.flatMap_def, List.flatMap_assoc]
    simp only [henum]
    rw [← List.flatMap_map Prod.fst ofEnums, List.zipIdx_map_fst]
  rw [hmessages, he, enumsOf_eq, List.flatMap_append, hnested]
  refine (List.Perm.append_left _ List.perm_append_comm).trans ?_
  rw [← List.append_assoc]
  exact List.Perm.append_right _ (List.flatMap_append_perm ..)

/-- The schema of a descriptor has its declarations and their nesting. -/
theorem File.ofDescriptor_faithful (h : File.ofDescriptor id raw = .ok f) : f.Faithful raw := by
  obtain ⟨-, he, -, -, -⟩ := File.ofDescriptor_ok h
  have hl := File.ofDescriptor_linked h
  constructor
  case messages => exact File.ofDescriptor_describes h
  case parent_lt => exact hl.parent_lt
  case top => exact File.topMessages_declared h
  case nested =>
    intro p hp
    rw [hl.nested p hp, childrenOf_eq_filter]
    exact filter_range_getD f.messages {} fun m => m.parent = some p
  case nested_declared =>
    intro p m hp
    rw [getElem?_preorders, Option.map_eq_some_iff] at hp
    obtain ⟨node, hn, rfl⟩ := hp
    rw [File.message_of_node h hn, map_raws (map_childrenOf ..), nodesOf_nests hn,
      List.zipIdx_map_fst]
  case nested_index =>
    intro p hp
    obtain ⟨node, hn⟩ := File.node_of_lt h hp
    rw [File.message_of_node h hn, File.nested_index h hn, length_nested hn]
  case nested_length =>
    intro p hp
    obtain ⟨node, hn⟩ := File.node_of_lt h hp
    rw [File.message_of_node h hn]
    exact length_nested hn
  case enums =>
    rw [he, ← nodesOf_raws]
    exact enumsOf_describes
  case enums_parent =>
    rw [he, ← nodesOf_raws]
    exact enumsOf_parent
  case attached =>
    intro p hp
    rw [hl.enums p hp, childrenOf_eq_filter]
    exact filter_range_getD f.enums {} fun e => e.parent = some p
  case attached_declared =>
    intro p m hp
    rw [getElem?_preorders, Option.map_eq_some_iff] at hp
    obtain ⟨node, hn, rfl⟩ := hp
    rw [File.map_enumType h hn]
    exact enumTypes_describes p node
  case typeName => exact fun i hi => File.ofDescriptor_typeName h hi
  case enum_typeName => exact fun i hi => File.ofDescriptor_enum_typeName h hi

end Faithful

end ProtoJava.Schema
