import ProtoJava.Proofs.Lookup
import ProtoJava.Proofs.Schema.Arena
import ProtoJava.Proofs.Schema.Branching
import ProtoJava.Proofs.Text.Decimals
import ProtoJava.Proofs.Text.Pieces

/-! # Source paths

The path of a declaration leads from the file to the descriptor that the declaration was made of,
and no two declarations of a file have the same path. So the comments of a declaration are those of
the first source location with its path that has any.
-/

namespace ProtoJava

namespace Descriptor

def Location.hasComments (l : Location) : Bool :=
  l.leading.isSome || l.trailing.isSome

/-- A declaration of a schema file, or the file itself. -/
inductive Declaration
  | file (raw : File)
  | message (raw : Message)
  | field (raw : Field)
  | extension (raw : Field)
  | oneof (name : String)
  | enum (raw : EnumType)
  | value (raw : EnumValue)

namespace Declaration

/-- The declaration at position `i` in the list with the given number. -/
def child? : Declaration → Int → Nat → Option Declaration
  | file f, 4, i => f.messages[i]?.map message
  | file f, 5, i => f.enums[i]?.map enum
  | file f, 7, i => f.extensions[i]?.map extension
  | message m, 2, i => m.fields[i]?.map field
  | message m, 3, i => m.nested[i]?.map message
  | message m, 4, i => m.enums[i]?.map enum
  | message m, 6, i => m.extensions[i]?.map extension
  | message m, 8, i => m.oneofs[i]?.map oneof
  | enum e, 2, i => e.values[i]?.map value
  | _, _, _ => none

/-- The declaration that a path leads to, by a number and a position in turn. -/
def at? : Declaration → List Int → Option Declaration
  | d, [] => some d
  | _, [_] => none
  | d, tag :: i :: r => (i.toNat?.bind (d.child? tag)).bind (·.at? r)

variable {root d e : Declaration} {p q : List Int}

theorem at?_append (h : d.at? p = some e) : d.at? (p ++ q) = e.at? q := by
  induction d, p using at?.induct with
  | case1 d =>
    obtain rfl := Option.some.inj h
    rfl
  | case2 d tag => exact nomatch h
  | case3 d tag i r ih =>
    rw [at?] at h
    obtain ⟨c, hc, h⟩ := Option.bind_eq_some_iff.mp h
    rw [List.cons_append, List.cons_append, at?, hc]
    exact ih c h

theorem at?_child (h : root.at? p = some d) (tag : Int) (i : Nat) :
    root.at? (p ++ [tag, (i : Int)]) = d.child? tag i := by
  rw [at?_append h, at?]
  change (d.child? tag i).bind (·.at? []) = _
  cases d.child? tag i <;> rfl

end Declaration

end Descriptor

namespace Schema

open Descriptor (Declaration)

/-- A number and a position, as they stand in a path. -/
def stepCode (s : Int × Nat) : Path :=
  [s.1, (s.2 : Int)]

theorem stepCode_isCode : IsCode stepCode where
  ne_nil _ := List.cons_ne_nil _ _
  unique := by
    rintro ⟨tag, i⟩ ⟨tag', i'⟩ x h h'
    have heq : [tag, (i : Int)] = [tag', (i' : Int)] :=
      (List.prefix_of_prefix_length_le h h' (Nat.le_refl _)).eq_of_length rfl
    obtain ⟨rfl, hi⟩ := List.cons.inj heq
    obtain rfl := Int.ofNat.inj (List.cons.inj hi).1
    rfl

/-- The paths of an enum at `p` and of its values. -/
def enumPaths (raw : Descriptor.EnumType) (p : Path) : List Path :=
  p :: raw.values.mapIdx fun i _ => p ++ stepCode (Descriptor.Tag.enumValue, i)

/-- The paths of a message and of what it declares, but for its types. -/
def Message.paths (m : Message) : List Path :=
  m.path :: (m.fields.map (·.path) ++ m.extensions.map (·.path) ++ m.oneofs.map (·.path))

def EnumType.paths (e : EnumType) : List Path :=
  e.path :: e.values.map (·.path)

/-- The paths of all declarations of a file. -/
def File.paths (f : File) : List Path :=
  f.messages.flatMap Message.paths ++ f.enums.flatMap EnumType.paths ++ f.extensions.map (·.path)

/-- A message is made of the descriptor that its path leads to, and so is what it declares. -/
structure Message.LedTo (root : Declaration) (m : Message) (raw : Descriptor.Message) : Prop where
  describes : m.Describes raw
  path : root.at? m.path = some (.message raw)
  fields : List.Forall₂ (fun f r => root.at? f.path = some (.field r)) m.fields raw.fields
  extensions : List.Forall₂ (fun f r => root.at? f.path = some (.extension r)) m.extensions
    raw.extensions
  oneofs : List.Forall₂ (fun o name => root.at? o.path = some (.oneof name)) m.oneofs raw.oneofs

structure EnumType.LedTo (root : Declaration) (e : EnumType) (raw : Descriptor.EnumType) :
    Prop where
  describes : e.Describes raw
  path : root.at? e.path = some (.enum raw)
  values : List.Forall₂ (fun v r => root.at? v.path = some (.value r)) e.values raw.values

/-- The declarations of a file are those of a descriptor, at different paths that lead to them. -/
structure File.Located (f : File) (raw : Descriptor.File) : Prop where
  messages : List.Forall₂ (Message.LedTo (.file raw)) f.messages (preorders raw.messages)
  enums : List.Forall₂ (EnumType.LedTo (.file raw)) f.enums
    (raw.enums ++ (preorders raw.messages).flatMap (·.enums))
  extensions : f.extensions = fieldsOf [] Descriptor.Tag.fileExtension raw.extensions
  extensions_path : List.Forall₂
    (fun x r => (Declaration.file raw).at? x.path = some (.extension r)) f.extensions
    raw.extensions
  distinct : f.paths.Nodup

section Distinct

theorem nodup_positions {α : Type} (tag : Int) (l : List α) :
    (l.zipIdx.map fun x => (tag, x.2)).Nodup := by
  have hpositions : (l.zipIdx.map (·.2)).Nodup := by
    rw [List.zipIdx_map_snd]
    exact List.nodup_range'
  refine List.Nodup.of_map Prod.snd ?_
  rwa [List.map_map]

theorem tag_of_mem_positions {α : Type} {tag : Int} {l : List α} :
    ∀ s ∈ l.zipIdx.map fun x => (tag, x.2), s.1 = tag := by
  rintro s hs
  obtain ⟨x, -, rfl⟩ := List.mem_map.mp hs
  rfl

/-- Branches below the positions of one list. -/
theorem fan_mapIdx {α : Type} {p : Path} {tag : Int} {branch : Nat → α → List Path}
    (h : ∀ i a, Fan stepCode (· = (tag, i)) p (branch i a)) (l : List α) :
    Fan stepCode (·.1 = tag) p (l.mapIdx branch).flatten := by
  rw [List.mapIdx_eq_zipIdx_map, ← List.flatMap_def]
  exact (Fan.flatMap stepCode_isCode (nodup_positions tag l) fun x _ => h x.2 x.1).mono
    tag_of_mem_positions

/-- The paths of declarations in one list. -/
theorem fan_positions {α : Type} (p : Path) (tag : Int) (l : List α) :
    Fan stepCode (·.1 = tag) p (l.mapIdx fun i _ => p ++ stepCode (tag, i)) := by
  rw [List.mapIdx_eq_zipIdx_map]
  exact (Fan.map stepCode_isCode (nodup_positions tag l)).mono tag_of_mem_positions

theorem fan_enumPaths (p : Path) (tag : Int) (raws : List Descriptor.EnumType) :
    Fan stepCode (·.1 = tag) p
      (raws.mapIdx fun i raw => enumPaths raw (p ++ stepCode (tag, i))).flatten :=
  fan_mapIdx (fun _ raw => (fan_positions _ _ raw.values).cons stepCode_isCode) raws

/-- The paths of the enums declared in the message of a node, and of their values. -/
def Node.enumPaths (node : Node) : List Path :=
  (node.raw.enums.mapIdx fun i e =>
    Schema.enumPaths e (node.path ++ stepCode (Descriptor.Tag.messageEnum, i))).flatten

/-- The paths of the fields, extensions and oneofs of a node. -/
def Node.memberPaths (node : Node) : List Path :=
  (node.raw.fields.mapIdx fun i _ => node.path ++ stepCode (Descriptor.Tag.messageField, i)) ++
  (node.raw.extensions.mapIdx fun i _ =>
    node.path ++ stepCode (Descriptor.Tag.messageExtension, i)) ++
  (node.raw.oneofs.mapIdx fun i _ => node.path ++ stepCode (Descriptor.Tag.messageOneof, i))

/-- The paths of a node and of what it declares, but for the messages nested in it. -/
def Node.paths (node : Node) : List Path :=
  (node.path :: node.memberPaths) ++ node.enumPaths

theorem Node.fan_parts (node : Node) :
    Fan stepCode (·.1 ≠ Descriptor.Tag.messageNested) node.path
      (node.memberPaths ++ node.enumPaths) := by
  have hfields := fan_positions node.path Descriptor.Tag.messageField node.raw.fields
  have hextensions := fan_positions node.path Descriptor.Tag.messageExtension node.raw.extensions
  have honeofs := fan_positions node.path Descriptor.Tag.messageOneof node.raw.oneofs
  have henums := fan_enumPaths node.path Descriptor.Tag.messageEnum node.raw.enums
  refine ((((hfields.append stepCode_isCode hextensions ?_).append stepCode_isCode honeofs
    ?_).append stepCode_isCode henums ?_)).mono ?_
  all_goals
    simp only [Descriptor.Tag.messageField, Descriptor.Tag.messageExtension,
      Descriptor.Tag.messageOneof, Descriptor.Tag.messageEnum, Descriptor.Tag.messageNested]
    omega

mutual

/-- All paths of a message go on from the path of what declares it by its own position. -/
theorem flattenMessage_fan (stem : Stem) (start index : Nat) :
    ∀ m, Fan stepCode (· = (stem.tag, index)) stem.path
      ((flattenMessage stem start index m).flatMap Node.paths)
  | .mk name fields extensions nested enums ranges oneofs mapEntry deprecated => by
    rw [flattenMessage]
    generalize hnode : stem.node index
      ⟨name, fields, extensions, nested, enums, ranges, oneofs, mapEntry, deprecated⟩ = node
    have hpath : stem.path ++ stepCode (stem.tag, index) = node.path := by
      rw [← hnode]
      rfl
    have hnested := flattenMessages_fan (node.stem start) (start + 1) 0 nested
    have hall := node.fan_parts.append stepCode_isCode hnested fun s hs hs' => hs hs'.1
    rw [← hpath] at hall
    have hcons := hall.cons stepCode_isCode
    rwa [hpath] at hcons

theorem flattenMessages_fan (stem : Stem) (start index : Nat) :
    ∀ ms, Fan stepCode (fun s => s.1 = stem.tag ∧ index ≤ s.2) stem.path
      ((flattenMessages stem start index ms).flatMap Node.paths)
  | [] => .nil
  | m :: r => by
    rw [flattenMessages, List.flatMap_append]
    have hhead := flattenMessage_fan stem start index m
    have htail := flattenMessages_fan stem (start + (flattenMessage stem start index m).length)
      (index + 1) r
    refine (hhead.append stepCode_isCode htail ?later).mono ?labels
    case later =>
      rintro s rfl
      omega
    case labels =>
      rintro s (rfl | ⟨htag, hle⟩)
      · exact ⟨rfl, Nat.le_refl _⟩
      · exact ⟨htag, by omega⟩

end

section Files

variable {id : Nat} {raw : Descriptor.File} {f : File}

theorem fieldsOf_paths (p : Path) (tag : Int) (raws : List Descriptor.Field) :
    (fieldsOf p tag raws).map (·.path) = raws.mapIdx fun i _ => p ++ stepCode (tag, i) := by
  rw [fieldsOf, map_mapIdx]
  rfl

theorem EnumType.ofDescriptor_paths (package : String) (parent : Option Nat)
    (outer : List String) (p : Path) (i : Nat) (raw : Descriptor.EnumType) :
    (EnumType.ofDescriptor package parent outer p i raw).paths = enumPaths raw p := by
  rw [EnumType.paths, EnumType.ofDescriptor, enumValues, map_mapIdx]
  rfl

theorem topEnumTypes_paths (package : String) (raws : List Descriptor.EnumType) :
    (topEnumTypes package raws).flatMap EnumType.paths =
      (raws.mapIdx fun i raw => enumPaths raw (stepCode (Descriptor.Tag.fileEnum, i))).flatten := by
  rw [List.flatMap_def, topEnumTypes, map_mapIdx]
  simp only [EnumType.ofDescriptor_paths]
  rfl

theorem Node.enumTypes_paths (package : String) (m : Nat) (node : Node) :
    (node.enumTypes package m).flatMap EnumType.paths = node.enumPaths := by
  rw [List.flatMap_def, Node.enumTypes, map_mapIdx]
  simp only [EnumType.ofDescriptor_paths]
  rfl

theorem Message.ofNode_paths (package : String) (nodes : List Node) (node : Node) :
    (Message.ofNode package nodes node).paths = node.path :: node.memberPaths := by
  simp only [Message.paths, Message.ofNode, fieldsOf_paths, map_mapIdx]
  rfl

/-- The paths of the declarations of a file are those of what its nodes declare, and of what the
file declares outside of messages. -/
theorem File.paths_perm (h : File.ofDescriptor id raw = .ok f) :
    f.paths.Perm ((nodesOf raw).flatMap Node.paths ++
      (topEnumTypes raw.package raw.enums).flatMap EnumType.paths ++ f.extensions.map (·.path)) :=
  List.Perm.append_right _ (File.declarations_perm h Message.paths EnumType.paths
    (fun node => node.path :: node.memberPaths) Node.enumPaths
    (fun node _ _ => Message.ofNode_paths raw.package (nodesOf raw) node)
    (Node.enumTypes_paths raw.package))

/-- No two declarations of a file have the same path. -/
theorem File.paths_nodup (h : File.ofDescriptor id raw = .ok f) : f.paths.Nodup := by
  obtain ⟨-, -, hextensions, -, -⟩ := File.ofDescriptor_ok h
  have hnodes := flattenMessages_fan .top 0 0 raw.messages
  have henums := fan_enumPaths [] Descriptor.Tag.fileEnum raw.enums
  have hfields := fan_positions [] Descriptor.Tag.fileExtension raw.extensions
  have htypes := hnodes.append stepCode_isCode henums fun s hs hs' => by
    simp [Stem.top, hs', Descriptor.Tag.fileEnum, Descriptor.Tag.fileMessage] at hs
  have hall := htypes.append stepCode_isCode hfields fun s hs hs' => by
    simp [Stem.top, hs', Descriptor.Tag.fileEnum, Descriptor.Tag.fileExtension,
      Descriptor.Tag.fileMessage] at hs
  rw [(File.paths_perm h).nodup_iff, topEnumTypes_paths, hextensions, fieldsOf_paths]
  exact hall.nodup

end Files

end Distinct

section Leading

variable {root d : Declaration} {p : Path} {tag : Int}

/-- Each declaration in one list is led to by the path of the list with its position. -/
theorem at?_position {α : Type} {l : List α} {k : α → Declaration} (hp : root.at? p = some d)
    (hd : ∀ i, d.child? tag i = l[i]?.map k) {i : Nat} {a : α} (h : l[i]? = some a) :
    root.at? (p ++ stepCode (tag, i)) = some (k a) := by
  rw [stepCode, Declaration.at?_child hp, hd, h]
  rfl

theorem fieldsOf_ledTo {raws : List Descriptor.Field} {k : Descriptor.Field → Declaration}
    (hp : root.at? p = some d) (hd : ∀ i, d.child? tag i = raws[i]?.map k) :
    List.Forall₂ (fun f r => root.at? f.path = some (k r)) (fieldsOf p tag raws) raws :=
  forall₂_mapIdx fun _ _ h => at?_position hp hd h

theorem EnumType.ofDescriptor_ledTo {package : String} {parent : Option Nat}
    {outer : List String} {i : Nat} {raw : Descriptor.EnumType}
    (hp : root.at? p = some (.enum raw)) :
    (EnumType.ofDescriptor package parent outer p i raw).LedTo root raw where
  describes := EnumType.ofDescriptor_describes ..
  path := hp
  values := forall₂_mapIdx fun _ _ h => at?_position hp (fun _ => rfl) h

/-- The enums in one list of a declaration. -/
theorem enumTypes_ledTo {package : String} {parent : Option Nat} {outer : List String}
    {raws : List Descriptor.EnumType} (hp : root.at? p = some d)
    (hd : ∀ i, d.child? tag i = raws[i]?.map .enum) :
    List.Forall₂ (EnumType.LedTo root) (raws.mapIdx fun i e =>
      EnumType.ofDescriptor package parent outer (p ++ stepCode (tag, i)) i e) raws :=
  forall₂_mapIdx fun _ _ h => EnumType.ofDescriptor_ledTo (at?_position hp hd h)

mutual

/-- If a message is led to by its path, then so are the messages nested in it. -/
theorem flattenMessage_ledTo (stem : Stem) (start index : Nat) :
    ∀ m, root.at? (stem.path ++ stepCode (stem.tag, index)) = some (.message m) →
      ∀ node ∈ flattenMessage stem start index m, root.at? node.path = some (.message node.raw)
  | .mk name fields extensions nested enums ranges oneofs mapEntry deprecated => by
    intro h
    rw [flattenMessage]
    refine List.forall_mem_cons.mpr ⟨h, ?_⟩
    apply flattenMessages_ledTo _ _ _ nested
    intro k m hk
    rw [Nat.zero_add]
    exact at?_position h (fun _ => rfl) hk

theorem flattenMessages_ledTo (stem : Stem) (start index : Nat) :
    ∀ ms, (∀ (k : Nat) m, ms[k]? = some m →
        root.at? (stem.path ++ stepCode (stem.tag, index + k)) = some (.message m)) →
      ∀ node ∈ flattenMessages stem start index ms, root.at? node.path = some (.message node.raw)
  | [], _ => by
    rw [flattenMessages]
    exact List.forall_mem_nil _
  | m :: r, h => by
    rw [flattenMessages, List.forall_mem_append]
    constructor
    · exact flattenMessage_ledTo stem start index m (h 0 m rfl)
    · refine flattenMessages_ledTo stem _ (index + 1) r fun k m' hk => ?_
      rw [Nat.add_right_comm]
      exact h (k + 1) m' hk

end

variable {id : Nat} {raw : Descriptor.File} {f : File}

theorem nodesOf_ledTo : ∀ node ∈ nodesOf raw,
    (Declaration.file raw).at? node.path = some (.message node.raw) := by
  apply flattenMessages_ledTo
  intro k m hk
  rw [Nat.zero_add]
  exact at?_position rfl (fun _ => rfl) hk

theorem Message.ofNode_ledTo {package : String} {nodes : List Node} {node : Node}
    {nested enums : List Nat} (h : root.at? node.path = some (.message node.raw)) :
    { Message.ofNode package nodes node with nested, enums }.LedTo root node.raw where
  describes := Message.ofNode_describes ..
  path := h
  fields := fieldsOf_ledTo h fun _ => rfl
  extensions := fieldsOf_ledTo h fun _ => rfl
  oneofs := forall₂_mapIdx fun _ _ ho => at?_position h (fun _ => rfl) ho

theorem File.messages_ledTo (h : File.ofDescriptor id raw = .ok f) :
    List.Forall₂ (Message.LedTo (.file raw)) f.messages (preorders raw.messages) := by
  obtain ⟨-, -, -, -, hmessages⟩ := File.ofDescriptor_ok h
  rw [← nodesOf_raws, hmessages, List.forall₂_map_right_iff]
  refine forall₂_mapIdx fun i node hi => ?_
  exact Message.ofNode_ledTo (nodesOf_ledTo node (List.mem_of_getElem? hi))

theorem File.enums_ledTo (h : File.ofDescriptor id raw = .ok f) :
    List.Forall₂ (EnumType.LedTo (.file raw)) f.enums
      (raw.enums ++ (preorders raw.messages).flatMap (·.enums)) := by
  obtain ⟨-, henums, -, -, -⟩ := File.ofDescriptor_ok h
  rw [henums, enumsOf_eq, ← nodesOf_raws, List.flatMap_map]
  refine List.rel_append (enumTypes_ledTo (p := []) rfl fun _ => rfl) (List.rel_flatten ?_)
  rw [List.forall₂_map_right_iff]
  refine forall₂_mapIdx fun i node hi => ?_
  exact enumTypes_ledTo (nodesOf_ledTo node (List.mem_of_getElem? hi)) fun _ => rfl

/-- The paths of the declarations of a file are different and lead to their descriptors. -/
theorem File.ofDescriptor_located (h : File.ofDescriptor id raw = .ok f) : f.Located raw := by
  obtain ⟨-, -, hextensions, -, -⟩ := File.ofDescriptor_ok h
  constructor
  case messages => exact File.messages_ledTo h
  case enums => exact File.enums_ledTo h
  case extensions => exact hextensions
  case extensions_path => exact hextensions ▸ fieldsOf_ledTo rfl fun _ => rfl
  case distinct => exact File.paths_nodup h

end Leading

section Keys

/-- A path is read off its text. -/
theorem pathKey_inj {p q : Path} (h : pathKey p = pathKey q) : p = q := by
  have hcomma : ∀ p : Path, ∀ s ∈ p.map toString, ',' ∉ s.toList := fun p =>
    List.forall_mem_map.mpr fun i _ hc =>
      (Text.of_mem_int hc).elim (by decide) (by decide)
  have hpieces : ∀ i (p : Path), Text.pieces ',' (pathKey (i :: p)).toList =
      ((i :: p).map toString).map String.toList := fun i p =>
    Text.pieces_joined (List.cons_ne_nil _ _) (hcomma (i :: p))
  have hempty : ∀ i (p : Path), pathKey [] ≠ pathKey (i :: p) := by
    intro i p he
    have hcut := hpieces i p
    rw [← he] at hcut
    exact Text.toList_int_ne_nil i (List.cons.inj hcut).1.symm
  cases p with
  | nil =>
    cases q with
    | nil => rfl
    | cons j q => exact absurd h (hempty j q)
  | cons i p =>
    cases q with
    | nil => exact absurd h.symm (hempty i p)
    | cons j q =>
      have hmap := Text.joined_inj (List.cons_ne_nil _ _) (List.cons_ne_nil _ _)
        (hcomma (i :: p)) (hcomma (j :: q)) h
      exact List.map_injective_iff.mpr Text.toString_int_injective hmap

end Keys

section Comments

theorem File.ofDescriptor_comments {id : Nat} {raw : Descriptor.File} {f : File}
    (h : File.ofDescriptor id raw = .ok f) : f.comments = commentsOf raw.locations := by
  simp only [File.ofDescriptor, bind_eq_ok_iff, pure_eq_ok_iff] at h
  obtain ⟨_, -, _, -, rfl⟩ := h
  rfl

theorem lookup_commentsOf (locations : List Descriptor.Location) (p : Path) :
    (commentsOf locations).lookup p =
      (locations.find? fun l => l.path = p ∧ l.hasComments).map fun l =>
        ⟨l.leading, l.trailing⟩ := by
  induction locations with
  | nil => rfl
  | cons l r ih =>
    rw [commentsOf]
    have hcomments : (l.leading.isNone && l.trailing.isNone) = !l.hasComments := by
      rw [Descriptor.Location.hasComments]
      cases l.leading <;> cases l.trailing <;> rfl
    rw [hcomments]
    cases hl : l.hasComments with
    | false =>
      rw [if_pos (by simp), List.find?_cons_of_neg (by simp [hl])]
      exact ih
    | true =>
      rw [if_neg (by simp)]
      by_cases hp : p = l.path
      · rw [List.find?_cons_of_pos (by simp [hl, hp]), hp]
        simp
      · have hlater : ((commentsOf r).filter (·.1 != l.path)).lookup p = (commentsOf r).lookup p :=
          lookup_filter (p := (· != l.path)) (by simpa using hp)
        have hne : (p == l.path) = false := by simpa using hp
        rw [List.find?_cons_of_neg (by simp [Ne.symm hp]), ← ih, ← hlater, List.lookup_cons, hne]

/-- The paths of the declarations of a file lead to what they were made of and are different, and
comments are looked up by them: those of the first location with a path that has any. The text of a
path tells it from all others, so it serves as a key as well. -/
theorem File.ofDescriptor_paths_faithful :
    (∀ (id : Nat) (raw : Descriptor.File), ∃ f, File.ofDescriptor id raw = .ok f ∧
      f.Located raw ∧
      ∀ p : Path, f.commentsAt? p =
          ((raw.locations.find? fun l => l.path = p ∧ l.hasComments).map fun l =>
            ⟨l.leading, l.trailing⟩) ∧
        (f.comments.map fun e => (pathKey e.1, e.2)).lookup (pathKey p) = f.commentsAt? p) ∧
    Function.Injective pathKey := by
  have hkey : Function.Injective pathKey := fun _ _ => pathKey_inj
  refine ⟨fun id raw => ?_, hkey⟩
  obtain ⟨f, hf⟩ := File.exists_ofDescriptor id raw
  refine ⟨f, hf, File.ofDescriptor_located hf, fun p => ⟨?_, lookup_map hkey _ _⟩⟩
  rw [File.commentsAt?, File.ofDescriptor_comments hf]
  exact lookup_commentsOf raw.locations p

end Comments

end Schema

end ProtoJava
