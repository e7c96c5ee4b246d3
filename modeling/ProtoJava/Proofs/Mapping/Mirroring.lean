import ProtoJava.Compile
import ProtoJava.Proofs.Mapping.Faults
import ProtoJava.Proofs.Mapping.Mentions
import ProtoJava.Proofs.Naming.Accessors
import ProtoJava.Proofs.Schema.Oneofs
import ProtoJava.Proofs.Schema.Placing

/-! # Plans mirror schemas

The plan of a file has an entry for each of its declarations, in the same order, and the plan of a
union lists its members by their positions. So every position that sources are written by is one
of an entry, in the schema and in the plan.
-/

namespace ProtoJava

namespace Schema

/-- The positions by which a file links its declarations are those of declarations. -/
structure File.Closed (f : File) : Prop where
  topMessages : ∀ i ∈ f.topMessages, i < f.messages.length
  topEnums : ∀ i ∈ f.topEnums, i < f.enums.length
  nested : ∀ m ∈ f.messages, ∀ i ∈ m.nested, i < f.messages.length
  enums : ∀ m ∈ f.messages, ∀ i ∈ m.enums, i < f.enums.length
  parent : ∀ m ∈ f.messages, ∀ p ∈ m.parent, p < f.messages.length
  enum_parent : ∀ e ∈ f.enums, ∀ p ∈ e.parent, p < f.messages.length
  aliases : ∀ e ∈ f.enums, ∀ v ∈ e.values, ∀ first ∈ v.aliasOf, first < e.values.length

theorem enumValues_aliases {path : Path} {raw : List Descriptor.EnumValue} :
    ∀ v ∈ enumValues path raw, ∀ first ∈ v.aliasOf, first < (enumValues path raw).length := by
  intro v hv first hfirst
  obtain ⟨i, hi, rfl⟩ := List.mem_mapIdx.mp hv
  obtain ⟨-, hlt⟩ := Option.filter_eq_some_iff.mp hfirst
  rw [enumValues, List.length_mapIdx]
  exact (of_decide_eq_true hlt).trans hi

namespace File.Describes

variable {raw : Descriptor.File} {f : File} (h : File.Describes raw f)

include h

theorem groups : List.Forall₂ Message.Groups f.messages (preorders raw.messages) := by
  obtain ⟨id, f₀, h₀, hf⟩ := h
  have hm : f.messages = f₀.messages := by rw [hf]
  rw [hm]
  exact File.ofDescriptor_groups h₀

theorem closed : f.Closed := by
  obtain ⟨id, f₀, h₀, hf⟩ := h
  have hl := File.ofDescriptor_linked h₀
  rw [hf]
  constructor
  case topMessages => exact fun i hi => (File.mem_topMessages_iff.mp hi).1
  case topEnums => exact fun i hi => (File.mem_topEnums_iff.mp hi).1
  case nested =>
    intro m hm i hi
    obtain ⟨k, hk, rfl⟩ := File.exists_message hm
    exact ((hl.mem_nested_iff hk).mp hi).1
  case enums =>
    intro m hm i hi
    obtain ⟨k, hk, rfl⟩ := File.exists_message hm
    exact ((hl.mem_enums_iff hk).mp hi).1
  case parent =>
    intro m hm p hp
    obtain ⟨k, hk, rfl⟩ := File.exists_message hm
    exact (hl.parent_lt k p hp).trans hk
  case enum_parent =>
    intro e he p hp
    obtain ⟨k, hk, rfl⟩ := File.exists_enumType he
    exact hl.enum_parent_lt k p hp
  case aliases =>
    intro e he
    obtain ⟨r, -, hr⟩ := forall₂_exists (File.ofDescriptor_faithful h₀).enums he
    rw [hr.values]
    exact enumValues_aliases

end File.Describes

end Schema

namespace Naming

open Schema (TypeRef Graph File Message Field Oneof preorders)
open Mapping (Scope Property Value)

/-- For each oneof that is a union, the positions of its members. -/
def MessageNames.members (n : MessageNames) : List (Option (List Nat)) :=
  n.unions.map fun u => u.map fun u => u.variants.map (·.fieldIndex)

/-- The names of a message have an entry for each part of its descriptor. -/
structure MessageNames.Mirrors (s : Scope) (n : MessageNames) (m : Message)
    (raw : Descriptor.Message) : Prop where
  describes : m.Describes raw
  /-- A field has a constant for its default just if it has a default, messages apart. -/
  fields : List.Forall₂ (fun (names : MemberNames) (x : Field) => x.type.isMessage = false →
    ∀ p, s.classify (some m) x = .ok p → names.defaultConst.isSome = p.default.isSome)
    n.fields m.fields
  extensions : n.extensions.length = m.extensions.length
  /-- A oneof that is no synthetic one has the fields that name it as its members. -/
  members : n.members = (List.range raw.oneofs.length).map fun k =>
    if raw.Synthetic k then none else some (raw.namers k)
  /-- No field is a member twice. -/
  nodup : n.members.reduceOption.flatten.Nodup
  /-- A field is a member just if it names a oneof there is that is no synthetic one. -/
  mem_iff : ∀ j, j ∈ n.members.reduceOption.flatten ↔ ∃ r, ∃ k : Nat, raw.fields[j]? = some r ∧
    r.oneofIndex = some (k : Int) ∧ k < raw.oneofs.length ∧ ¬ raw.Synthetic k
  variant_lt : ∀ u, some u ∈ n.unions → ∀ v ∈ u.variants, v.fieldIndex < m.fields.length
  /-- What becomes a member of a union finds the union. -/
  union : ∀ x p k v, s.classify (some m) x = .ok p → p.kind = .variant k v →
    k < m.oneofs.length ∧ ∃ u, n.unions[k]? = some (some u)

/-- The names of a file have an entry for each of its declarations. -/
structure FileNames.Mirrors (s : Scope) (n : FileNames) (f : File) (raw : Descriptor.File) :
    Prop where
  closed : f.Closed
  declared : f.messages.length = (preorders raw.messages).length
  messages : n.messages.length = f.messages.length
  message : ∀ j d, (preorders raw.messages)[j]? = some d →
    (n.messages.getD j default).Mirrors s (f.message j) d
  enums : List.Forall₂ (fun n e => n.constants.length = e.values.length) n.enums f.enums
  extensions : n.extensions.length = f.extensions.length

/-- A type has names. -/
def Allocation.Has (a : Allocation) : TypeRef → Prop
  | .message id => id.file < a.files.length ∧ id.index < (a.file id.file).messages.length
  | .enum id => id.file < a.files.length ∧ id.index < (a.file id.file).enums.length

/-- The plans of a graph are those of its files, in order, and each mirrors the descriptor of its
file. -/
structure Allocation.Mirrors (layout : Layout) (a : Allocation) (g : Graph)
    (raws : List Descriptor.File) : Prop where
  schemas : g.files.length = raws.length
  files : a.files.length = g.files.length
  plan : ∀ i < g.files.length, ∃ package converter,
    a.file i = fileNames layout (g.file i) package converter
  file : ∀ i raw, raws[i]? = some raw →
    (a.file i).Mirrors ⟨g, g.index⟩ (g.file i) raw

section Unions

variable {n : MessageNames} {m : Message} {raw : Descriptor.Message} (h : m.Groups raw)

include h

/-- The members of a union are the fields that name it. -/
theorem unionMembers_eq {k : Nat} {o : Oneof} (hk : m.oneofs[k]? = some o)
    (hs : o.synthetic = false) : unionMembers m o = m.fields.filter (·.oneofIndex = some k) := by
  obtain ⟨name, -, ho⟩ := h.oneof hk
  refine List.filter_congr fun x _ => ?_
  rw [Bool.eq_iff_iff, decide_eq_true_eq, Option.any_eq_true]
  constructor
  · rintro ⟨o', hu, hindex⟩
    obtain ⟨-, -, i, hi, ho'⟩ := Schema.Message.mem_oneofs_of_union? hu
    obtain ⟨name', -, rfl⟩ := h.oneof ho'
    have : i = k := by simpa [ho, Schema.Oneof.ofName] using hindex
    rw [hi, this]
  · intro hx
    exact ⟨o, by simp [Schema.Message.union?, hx, hk, hs], by simp⟩

theorem members_eq (hn : n.Fits m) : n.members = (List.range raw.oneofs.length).map fun k =>
    if raw.Synthetic k then none else some (raw.namers k) := by
  rw [MessageNames.members, hn.unions, List.map_map]
  refine List.ext_getElem (by simp [h.length_oneofs]) fun k hk hk' => ?_
  have hlt : k < m.oneofs.length := by simpa using hk
  have ho := List.getElem?_eq_getElem hlt
  rw [List.getElem_map, List.getElem_map, List.getElem_range, Function.comp_apply]
  by_cases hs : m.oneofs[k].synthetic
  · rw [if_pos hs, if_pos ((h.synthetic_iff ho).mp hs), Option.map_none]
  · rw [if_neg hs, if_neg (hs ∘ (h.synthetic_iff ho).mpr), Option.map_some]
    have hs' : m.oneofs[k].synthetic = false := by simpa using hs
    rw [hn.variants _ (List.getElem_mem hlt) hs', unionMembers_eq h ho hs', h.map_index]

theorem flatten_members (hn : n.Fits m) : n.members.reduceOption.flatten = raw.unionNamers := by
  have hunions := reduceOption_map_ite (fun k => decide (raw.Synthetic k)) raw.namers
    (List.range raw.oneofs.length)
  simp only [decide_eq_true_eq] at hunions
  rw [members_eq h hn, hunions, Descriptor.Message.unionNamers, List.flatMap_def]
  simp only [decide_not]

theorem variant_lt (hn : n.Fits m) {u : UnionNames} (hu : some u ∈ n.unions) {v : VariantNames}
    (hv : v ∈ u.variants) : v.fieldIndex < m.fields.length := by
  have hmem : v.fieldIndex ∈ n.members.reduceOption.flatten := by
    refine List.mem_flatten.mpr ⟨u.variants.map (·.fieldIndex), ?_, List.mem_map_of_mem hv⟩
    exact List.reduceOption_mem_iff.mpr (List.mem_map.mpr ⟨some u, hu, rfl⟩)
  rw [flatten_members h hn, Descriptor.Message.mem_unionNamers_iff] at hmem
  obtain ⟨r, -, hr, -⟩ := hmem
  exact h.length_fields ▸ (List.getElem?_eq_some_iff.mp hr).1

end Unions

/-- What becomes a member of a union finds the union, and its names. -/
theorem MessageNames.Fits.union_of_classify {n : MessageNames} {m : Message} (hn : n.Fits m)
    (hm : m.Numbered) {s : Scope} {x : Field} {p : Property} {k : Nat} {v : Value}
    (hp : s.classify (some m) x = .ok p) (hk : p.kind = .variant k v) :
    k < m.oneofs.length ∧ ∃ u, n.unions[k]? = some (some u) := by
  have hx : x.extendee = none := by
    by_contra hx
    have := Mapping.isExtension_of_classify hp hx
    rw [hk] at this
    exact nomatch this
  obtain ⟨hu, -⟩ := Mapping.oneof?_of_classify hp hx
  rw [hk, Option.bind_some] at hu
  obtain ⟨o, ho, rfl⟩ := Option.map_eq_some_iff.mp hu.symm
  obtain ⟨hmem, hs, -⟩ := Schema.Message.mem_oneofs_of_union? ho
  have hget := Schema.getElem?_index hm.oneofs hmem
  refine ⟨(List.getElem?_eq_some_iff.mp hget).1, n.union o, ?_⟩
  rw [hn.unions, List.getElem?_map, hget, Option.map_some, if_neg (by simp [hs])]

/-- The names of a message mirror its descriptor. -/
theorem messageNames_mirrors {f : File} {classes : Classes}
    {methods : List (ConverterRole × String)} {i : Nat} {raw : Descriptor.Message} (s : Scope)
    (h : (f.message i).Groups raw) :
    (messageNames f classes methods i).Mirrors s (f.message i) raw := by
  have hm := h.numbered
  have hn : (messageNames f classes methods i).Fits (f.message i) := messageNames_fits hm
  constructor
  case describes => exact h.describes
  case fields =>
    rw [hn.fields_eq hm, List.forall₂_map_left_iff, List.forall₂_same]
    intro x hx ht p hp
    obtain ⟨v, hv, -, hd, -⟩ := Mapping.classify_ok hp
    have hmessage : ¬ x.type.isMessage := by simp [ht]
    rw [(messageNames_scoped hm).defaults x hx,
      Mapping.default_isSome hv hd fun h => absurd h hmessage]
  case extensions => exact hn.extensions
  case members => exact members_eq h hn
  case nodup => exact flatten_members h hn ▸ raw.unionNamers_nodup
  case mem_iff =>
    intro j
    rw [flatten_members h hn, Descriptor.Message.mem_unionNamers_iff]
  case variant_lt => exact fun u hu v hv => variant_lt h hn hu hv
  case union => exact fun x p k v hp hk => hn.union_of_classify hm hp hk

/-- The names of a file mirror its descriptor. -/
theorem fileNames_mirrors {f : File} {raw : Descriptor.File} (s : Scope)
    (h : File.Describes raw f) (layout : Layout) (package converter : String) :
    (fileNames layout f package converter).Mirrors s f raw := by
  have hgroups := h.groups
  constructor
  case closed => exact h.closed
  case declared => exact hgroups.length_eq
  case messages => simp [fileNames]
  case message =>
    intro j d hd
    obtain ⟨hj, rfl⟩ := List.getElem?_eq_some_iff.mp hd
    have hj' : j < f.messages.length := hgroups.length_eq ▸ hj
    have hmessage : (f.message j).Groups (preorders raw.messages)[j] := by
      rw [File.message_eq_getElem hj']
      exact hgroups.get hj' hj
    simpa [fileNames, hj'] using messageNames_mirrors s hmessage
  case enums =>
    refine List.forall₂_iff_get.mpr ⟨by simp [fileNames], fun j hj hj' => ?_⟩
    simp [fileNames, enumNames, File.enumType_eq_getElem hj', Registry.claimAll_length]
  case extensions => simp [fileNames, extensionNames]

end Naming

namespace Mapping

open Schema (TypeRef Graph Field Message)
open Naming (Allocation)

/-- The declared types that the text for a property deals with. -/
def Property.refs (p : Property) : List TypeRef :=
  p.values.filterMap Value.ref? ++ match p.kind with
    | .extension extendee _ _ => [.message extendee]
    | _ => []

/-- A shape has all that its message and the plan of the message have. -/
structure Shape.Whole (s : Shape) : Prop where
  fields : s.members.map (·.property.field) = s.message.fields
  names : s.members.map (·.names) = s.names.fields
  variants : s.unions.map (fun u => u.map fun u => u.variants.map (·.names)) =
    s.names.unions.map fun u => u.map (·.variants)

section Refs

variable {raws : List Descriptor.File} {g : Graph} (hg : Graph.build raws = .ok g)
  {m : Option Message} {x : Field} {p : Property} {v : Value}

include hg

/-- The message that an extension extends is found under its name. -/
theorem resolve_of_extension {extendee : Schema.MessageId} {repeated : Bool}
    (hp : (scopeOf g).classify m x = .ok p) (hk : p.kind = .extension extendee v repeated) :
    ∃ name, x.extendee = some name ∧ g.FindsMessage name extendee := by
  obtain ⟨_, -, hkind, -⟩ := classify_ok hp
  rw [hk] at hkind
  cases hx : x.extendee with
  | none =>
    have := (oneof?_of_classify hp hx).2
    rw [hk] at this
    exact nomatch this
  | some name =>
    rw [Scope.kind, hx] at hkind
    obtain ⟨id, hid, heq⟩ := map_eq_ok_iff.mp hkind
    obtain ⟨rfl, -⟩ := Kind.extension.inj heq
    exact ⟨name, rfl, (Schema.Graph.resolve_message hg).mp (ofSchema_eq_ok_iff.mp hid)⟩

/-- What a field becomes deals with types that are declared. -/
theorem has_of_classify (hp : (scopeOf g).classify m x = .ok p) : ∀ ref ∈ p.refs, g.Has ref := by
  intro ref href
  rcases List.mem_append.mp href with href | href
  · obtain ⟨v, hv, href⟩ := List.mem_filterMap.mp href
    rcases value_of_classify hp hv with hv | ⟨entry, key, -, -, -, hmap⟩
    · exact has_of_value hg hv ref href
    · obtain ⟨y, -, hv⟩ := mapOf_ok hmap
      exact has_of_value hg hv ref href
  · split at href
    · next hk =>
      obtain rfl := List.mem_singleton.mp href
      obtain ⟨name, -, hid⟩ := resolve_of_extension hg hp hk
      exact ⟨hid.file_lt, hid.lt⟩
    · exact nomatch href

end Refs

/-- No entry of a plan is left out of the shape. -/
theorem Shape.Resolved.whole {s : Shape} {c : Scope} {m : Message} {n : Naming.MessageNames}
    (h : s.Resolved c m n) (hm : m.Numbered) (hn : n.Fits m) : s.Whole where
  fields := by
    rw [h.fits.members, h.fits.message, List.map_map]
    exact (List.map_congr_left h.fits.field).trans (List.map_id _)
  names := by
    rw [h.fits.members, h.fits.names, hn.fields_eq hm, List.map_map]
    exact List.map_congr_left h.fits.memberNames
  variants := by
    rw [h.fits.unions, h.fits.names, hn.unions, List.map_map, List.map_map]
    refine List.map_congr_left fun o ho => ?_
    by_cases hs : o.synthetic
    · simp [hs]
    · have hs' : o.synthetic = false := by simpa using hs
      simp [hs', h.variants o ho hs', hn.variants_eq hm ho hs']

section Allocated

variable {raws : List Descriptor.File} {g : Graph} (hg : Graph.build raws = .ok g) (o : Options)
  (generate : List Nat)

include hg

theorem plans_mirror :
    (Naming.allocate o g generate).Mirrors o.layout g raws := by
  have hlength := Schema.Graph.build_length hg
  have hplan : ∀ i < g.files.length, ∃ package converter,
      (Naming.allocate o g generate).file i =
        Naming.fileNames o.layout (g.file i) package converter := by
    intro i hi
    obtain ⟨package, converter, -, h⟩ := Naming.allocate_file o generate hi
    exact ⟨package, converter, h⟩
  constructor
  case schemas => exact hlength
  case files => simp [Naming.allocate]
  case plan => exact hplan
  case file =>
    intro i raw hraw
    have hi : i < g.files.length := hlength ▸ (List.getElem?_eq_some_iff.mp hraw).1
    obtain ⟨package, converter, h⟩ := hplan i hi
    rw [h]
    exact Naming.fileNames_mirrors _ (Schema.Graph.build_describes_file hg hraw) o.layout package
      converter

/-- Each declared type has names. -/
theorem plans_have {ref : TypeRef} (h : g.Has ref) : (Naming.allocate o g generate).Has ref := by
  have ha := plans_mirror hg o generate
  cases ref with
  | message id =>
    obtain ⟨package, converter, hplan⟩ := ha.plan id.file h.1
    refine ⟨ha.files ▸ h.1, ?_⟩
    simpa [hplan, Naming.fileNames] using h.2
  | enum id =>
    obtain ⟨package, converter, hplan⟩ := ha.plan id.file h.1
    refine ⟨ha.files ▸ h.1, ?_⟩
    simpa [hplan, Naming.fileNames] using h.2

/-- The plans mirror the graph, whatever files are to be generated. What fields become deals with
types that are declared and have names, and a shape has all entries of the plan it is made with. -/
theorem allocate_mirrors :
    (Naming.allocate o g generate).Mirrors o.layout g raws ∧
    (∀ x v, (scopeOf g).value x = .ok v → ∀ ref ∈ v.ref?,
      g.Has ref ∧ (Naming.allocate o g generate).Has ref) ∧
    (∀ m x p, (scopeOf g).classify m x = .ok p → ∀ ref ∈ p.refs,
      g.Has ref ∧ (Naming.allocate o g generate).Has ref) ∧
    ∀ id s, g.Has (.message id) → Shape.of (.prepare o g generate) id = .ok s → s.Whole := by
  have hnamed := fun ref (h : g.Has ref) => And.intro h (plans_have hg o generate h)
  refine ⟨plans_mirror hg o generate, ?values, ?properties, ?shapes⟩
  case values => exact fun x v hv ref href => hnamed ref (has_of_value hg hv ref href)
  case properties => exact fun m x p hp ref href => hnamed ref (has_of_classify hg hp ref href)
  case shapes =>
    intro id s hid hs
    have hl := Schema.Graph.build_linked hg id.file
    have hm := hl.message_numbered hid.2
    have hfile : ((Naming.allocate o g generate).file id.file).Fits o.layout (g.file id.file) :=
      Naming.allocate_fits hl hid.1
    have hn := hfile.messages id.index hid.2
    exact (Shape.of_resolved hs hm hn).whole hm hn

end Allocated

/-- A message with a union, an optional field, and fields that name oneofs there are not. -/
def survey : Descriptor.File where
  name := "survey.proto"
  messages := [{
    name := "Answer"
    fields := [
      { name := "text", number := 1, type := 9, label := 1, oneofIndex := some 0,
        defaultValue := some "none" },
      { name := "score", number := 2, type := 5, label := 1, oneofIndex := some 1,
        proto3Optional := true },
      { name := "mood", number := 3, type := 14, label := 1, typeName := ".Mood",
        oneofIndex := some 0 },
      { name := "before", number := 4, type := 5, label := 1, oneofIndex := some (-1) },
      { name := "after", number := 5, type := 5, label := 1, oneofIndex := some 2 }]
    oneofs := ["value", "_score"] }]
  enums := [{
    name := "Mood"
    values := [{ name := "GOOD", number := 0 }, { name := "FINE", number := 0 }] }]

theorem allocate_mirrors_survey :
    let o : Options := ⟨"bean", "bean.converter", .type, false⟩
    ∃ g, Graph.build [survey] = .ok g ∧
      ((Naming.allocate o g [0, 0]).message ⟨0, 0⟩).members = [some [0, 2], none] ∧
      ((Naming.allocate o g [0, 0]).message ⟨0, 0⟩).fields.map (·.defaultConst.isSome) =
        [true, false, false, false, false] ∧
      ((Naming.allocate o g [0, 0]).enumNames ⟨0, 0⟩).constants.length = 2 ∧
      (Naming.allocate o g [0, 0]).Has (.enum ⟨0, 0⟩) := by
  intro o
  let g := (Graph.build [survey]).toOption.getD default
  have hg : Graph.build [survey] = .ok g := rfl
  obtain ⟨h, hvalues, -, -⟩ := allocate_mirrors hg o [0, 0]
  have hfile := h.file 0 survey rfl
  have hmood : (scopeOf g).value ((g.message ⟨0, 0⟩).fields.getD 2 default) =
      .ok (.enum ⟨0, 0⟩) := by decide +kernel
  refine ⟨g, hg, ?_, by decide +kernel, by decide +kernel, (hvalues _ _ hmood _ rfl).2⟩
  exact (hfile.message 0 _ rfl).members.trans (by decide +kernel)

end Mapping

end ProtoJava
