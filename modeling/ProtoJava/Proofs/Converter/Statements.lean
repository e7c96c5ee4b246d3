import Mathlib.Data.List.ReduceOption
import ProtoJava.Converter.File
import ProtoJava.Proofs.Converter.Values
import ProtoJava.Proofs.Java.Texts
import ProtoJava.Proofs.Outcome

/-! # Statements of converters

What a converter writes for an item of a message, in each direction: the values of a field are read
from one side and handed to the other, one by one or as a whole, and a union becomes a switch.
-/

namespace ProtoJava.Converter

open Java
open Mapping
open Naming (ConverterNames MemberNames UnionNames VariantNames)

/-- How the values of a field get from one side to the other. -/
inductive Transfer
  | single
  /-- A list, element by element. -/
  | each
  /-- A list as a whole. -/
  | all
  /-- A map, entry by entry. -/
  | eachEntry (key : Scalar)
  /-- A map as a whole. -/
  | allEntries
deriving Repr, DecidableEq

namespace Transfer

/-- What an accessor that reads the values ends in. -/
def getterEnd : Transfer → String
  | single => "()"
  | each | all => "List()"
  | eachEntry _ | allEntries => "Map()"

/-- What a bean field is followed by where it gets a value. -/
def assign : Transfer → String
  | single => " = "
  | each => ".add("
  | all => ".addAll("
  | eachEntry _ => ".put(entry.getKey(), "
  | allEntries => ".putAll("

def assignEnd : Transfer → String
  | single => ";"
  | _ => ");"

/-- What an accessor that a builder gets values by starts with. -/
def builder : Transfer → String
  | single => "builder.set"
  | each => "builder.add"
  | all => "builder.addAll"
  | eachEntry _ => "builder.put"
  | allEntries => "builder.putAll"

/-- What such an accessor is followed by. -/
def arguments : Transfer → String
  | eachEntry _ => "(entry.getKey(), "
  | _ => "("

end Transfer

/-- How the values of a field of a kind are converted, and what they are. Members of unions and
extensions have no statements of their own. -/
def transfer? : Kind → Option (Transfer × Value)
  | .scalar v false => some (.single, .scalar v)
  | .message id false => some (.single, .message id)
  | .enum id false => some (.single, .enum id)
  | .scalar v true => some (if isShared (.scalar v) then .all else .each, .scalar v)
  | .message id true => some (.each, .message id)
  | .enum id true => some (.each, .enum id)
  | .map key v => some (if isShared v then .allEntries else .eachEntry key, v)
  | .variant _ _ | .extension _ _ _ => none

/-- Statements that take what `source` holds, between `opening` and `closing`; `value` is how one
value is converted, and `element` what its type is called. -/
inductive Moves (value : String → String → Prop) (element : String → Prop)
    (source opening closing : String) : Transfer → List Step → Prop
  | single {e : String} (h : value source e) :
    Moves value element source opening closing .single [.line (opening ++ e ++ closing)]
  | each {type e : String} (ht : element type) (h : value "item" e) :
    Moves value element source opening closing .each
      [.block ("for (" ++ type ++ " item : " ++ source ++ ")" ++ " \x7b") "\x7d"
        [.line (opening ++ e ++ closing)]]
  | all : Moves value element source opening closing .all [.line (opening ++ source ++ closing)]
  | eachEntry {key : Scalar} {entry type e : String}
    (he : (⟨"java.util", ["Map", "Entry"]⟩ : ClassName).IsCalled entry) (ht : element type)
    (h : value "entry.getValue()" e) :
    Moves value element source opening closing (.eachEntry key)
      [.block ("for (" ++ entry ++ "<" ++ keyClass key ++ ", " ++ type ++ "> entry : " ++ source ++
          ".entrySet())" ++ " \x7b") "\x7d"
        [.line (opening ++ e ++ closing)]]
  | allEntries :
    Moves value element source opening closing .allEntries [.line (opening ++ source ++ closing)]

/-- Statements, in the braces of a test if that is asked for. -/
def Tested (asked : Prop) (test : String) (statements : List Step → Prop) (steps : List Step) :
    Prop :=
  ∃ inner, statements inner ∧
    (asked ∧ steps = [.block (test ++ " \x7b") "\x7d" inner] ∨
      ¬ asked ∧ steps = inner)

/-- A switch with arms that each end in a break. -/
def switchOver (selector : String) (arms : List Arm) : Step :=
  .block ("switch (" ++ selector ++ ")" ++ " \x7b") "\x7d" (
    arms.flatMap (fun arm => [.line ("case " ++ arm.label ++ ":")] ++
      arm.statements.map (fun text => .line ("    " ++ text)) ++ [.line "    break;"]) ++
    [.line "default:", .line "    break;"])

/-- The text of a method that makes a bean, with statements in it. -/
def decodeText (bean proto method statements : String) : String :=
  lineText 1 ("public static " ++ bean ++ " " ++ method ++ "(" ++ proto ++ " pb) \x7b") ++
  lineText 2 "if (pb == null) \x7b" ++ lineText 3 "return null;" ++ lineText 2 "\x7d" ++
  lineText 2 (bean ++ " bean = new " ++ bean ++ "();") ++
  statements ++
  lineText 2 "return bean;" ++
  lineText 1 "\x7d"

/-- The text of a method that makes a message of protobuf-java, with statements in it. -/
def encodeText (bean proto method statements : String) : String :=
  lineText 1 ("public static " ++ proto ++ " " ++ method ++ "(" ++ bean ++ " bean) \x7b") ++
  lineText 2 "if (bean == null) \x7b" ++ lineText 3 "return null;" ++ lineText 2 "\x7d" ++
  lineText 2 (proto ++ ".Builder builder = " ++ proto ++ ".newBuilder();") ++
  statements ++
  lineText 2 "return builder.build();" ++
  lineText 1 "\x7d"

/-- What one of the two methods of a message is made of. -/
structure Direction where
  /-- Statements for the field with the given names, which may tell absence. -/
  moves : MemberNames → Bool → Transfer → Value → List Step → Prop
  /-- The arm for a member of a union. -/
  arm : VariantNames → MemberNames → Value → Arm → Prop
  /-- What is switched over for a union. -/
  selector : UnionNames → String
  /-- The method with the names of both classes and its statements in it. -/
  text : ConverterNames → String → String → String → String

namespace Site

/-- Values are read off a message by its accessors, and become those of bean fields. Where a single
value can be absent, it is asked for first. -/
def decoding (s : Site) : Direction where
  moves n nullable t v :=
    Tested (t = .single ∧ (nullable ∨ ∃ id, v = .message id)) ("if (pb.has" ++ n.accessor ++ "())")
      (Moves (s.Decodes · v) (s.ProtoElement v)
        ("pb.get" ++ n.accessor ++ s.ending v ++ t.getterEnd) ("bean." ++ n.field ++ t.assign)
        t.assignEnd t)
  arm w n v a := a.label = w.protoCaseConstant ∧
    ∃ e, s.Decodes ("pb.get" ++ n.accessor ++ s.ending v ++ "()") v e ∧
      a.statements = ["bean." ++ w.setter ++ "(" ++ e ++ ");"]
  selector u := "pb." ++ u.protoCaseGetter ++ "()"
  text n bean proto := decodeText bean proto n.decode

/-- Values are read off bean fields, and a builder gets them by its accessors. What can be null in a
bean is not handed on where it is. -/
def encoding (s : Site) : Direction where
  moves n nullable t v :=
    Tested (¬ (t = .single ∧ nullable = false ∧ Primitive v))
      ("if (" ++ ("bean." ++ n.field) ++ " != null)")
      (Moves (s.Encodes · v) (s.BeanElement v) ("bean." ++ n.field)
        (t.builder ++ n.accessor ++ s.ending v ++ t.arguments) ");" t)
  arm w n v a := a.label = w.caseConstant ∧
    ∃ e, s.Encodes ("bean." ++ w.getter ++ "()") v e ∧
      ∃ set, set = "builder.set" ++ n.accessor ++ s.ending v ++ "(" ++ e ++ ");" ∧
        (Primitive v ∧ a.statements = [set] ∨ ¬ Primitive v ∧ a.statements =
          ["if (" ++ ("bean." ++ w.getter ++ "()") ++ " != null) \x7b", "    " ++ set, "\x7d"])
  selector u := "bean." ++ u.caseGetter ++ "()"
  text n bean proto := encodeText bean proto n.encode

end Site

/-- What a direction has for a field on its own. -/
def Direction.ForField (d : Direction) (m : Member) (steps : List Step) : Prop :=
  match transfer? m.property.kind with
  | some (t, v) => d.moves m.names m.property.nullable t v steps
  | none => steps = []

/-- What a direction has for a union: a switch with an arm for each member that has a value. -/
def Direction.ForUnion (d : Direction) (u : Union) (steps : List Step) : Prop :=
  ∃ arms : List (Option Arm),
    List.Forall₂ (fun x => Option.Rel (d.arm x.names x.member.names) x.member.property.value?)
      u.variants arms ∧
    steps = [switchOver (d.selector u.names) arms.reduceOption]

/-- What a direction has for an item. -/
def Direction.ForItem (d : Direction) : Item → List Step → Prop
  | .field m => d.ForField m
  | .union u => d.ForUnion u

section Tested

variable {asked : Prop} {test : String} {statements P : List Step → Prop} {steps : List Step}

theorem Tested.braced (h : asked) (hs : statements steps) :
    Tested asked test statements [.block (test ++ " \x7b") "\x7d" steps] :=
  ⟨steps, hs, .inl ⟨h, rfl⟩⟩

theorem Tested.bare (h : ¬ asked) (hs : statements steps) : Tested asked test statements steps :=
  ⟨steps, hs, .inr ⟨h, rfl⟩⟩

/-- What holds of statements holds of them in a test, if it does not mind braces. -/
theorem Tested.of_braced (h : Tested asked test statements steps)
    (hs : ∀ inner, statements inner → P inner)
    (hb : ∀ header inner, P inner → P [.block (header ++ " \x7b") "\x7d" inner]) : P steps := by
  rcases h with ⟨inner, h, ⟨-, rfl⟩ | ⟨-, rfl⟩⟩
  · exact hb test inner (hs inner h)
  · exact hs steps h

/-- All that is moved is moved by one line, which may stand in a loop. -/
theorem Moves.of_line {value : String → String → Prop} {element : String → Prop}
    {source opening closing : String} {t : Transfer}
    (h : Moves value element source opening closing t steps)
    (hl : ∀ e, P [.line (opening ++ e ++ closing)])
    (hb : ∀ header inner, P inner → P [.block (header ++ " \x7b") "\x7d" inner]) : P steps := by
  cases h with
  | single => exact hl _
  | each => exact hb _ _ (hl _)
  | all => exact hl _
  | eachEntry => exact hb _ _ (hl _)
  | allEntries => exact hl _

end Tested

/-- The head of a loop over the entries of a map that an accessor reads. -/
theorem getterLoop_eq (entry key type stem ending : String) :
    "for (" ++ entry ++ "<" ++ key ++ ", " ++ type ++ "> entry : pb.get" ++ stem ++ ending ++
        "Map().entrySet())" =
      "for (" ++ entry ++ "<" ++ key ++ ", " ++ type ++ "> entry : " ++
        ("pb.get" ++ stem ++ ending ++ "Map()") ++ ".entrySet())" := by
  rw [show "> entry : pb.get" = "> entry : " ++ "pb.get" from rfl,
    show "Map().entrySet())" = "Map()" ++ ".entrySet())" from rfl]
  simp only [String.append_assoc]

/-- A list or a map that an accessor reads is handed over as a whole. -/
theorem getterWhole_eq (field stem add ending : String) :
    "bean." ++ field ++ (add ++ "pb.get") ++ stem ++ (ending ++ ");") =
      "bean." ++ field ++ add ++ ("pb.get" ++ stem ++ "" ++ ending) ++ ");" := by
  simp only [String.append_assoc, String.empty_append]

section Decoding

variable (s : Site) (m : Member)

theorem decodeSingle_moves (v : Value) : Yields AnyImports (s.decodeSingle m v)
    (s.decoding.moves m.names m.property.nullable .single v) := by
  refine (decoded_decodes s _ v).bind fun e he => .pure ?_
  rw [accessorEnd_eq] at he
  split_ifs with h
  · refine .braced ⟨rfl, ?_⟩ (.single he)
    rcases Bool.or_eq_true_iff.mp h with h | h
    · exact .inl h
    · cases v <;> first | exact .inr ⟨_, rfl⟩ | exact absurd h Bool.false_ne_true
  · refine .bare ?_ (.single he)
    rintro ⟨-, hnullable | ⟨id, rfl⟩⟩
    · exact h (by rw [hnullable, Bool.true_or])
    · exact h (Bool.or_true _)

theorem decodeList_moves (v : Value) : Yields AnyImports (s.decodeList m v)
    (s.decoding.moves m.names m.property.nullable (if isShared v then .all else .each) v) := by
  unfold Site.decodeList
  split
  case h_4 v hbytes =>
    rw [isShared_scalar hbytes, if_pos rfl]
    refine .pure (.bare (by simp) ?_)
    rw [show ".addAll(pb.get" = ".addAll(" ++ "pb.get" from rfl,
      show "List());" = "List()" ++ ");" from rfl, getterWhole_eq]
    exact .all
  all_goals
    refine (elementType_protoElement s rfl).bind fun type ht => ?_
    refine (decoded_decodes s _ _).bind fun e he => .pure ?_
    rw [accessorEnd_eq]
    exact .bare (by simp [isShared]) (.each ht he)

theorem decodeMap_moves (key : Scalar) (v : Value) : Yields AnyImports (s.decodeMap m key v)
    (s.decoding.moves m.names m.property.nullable
      (if isShared v then .allEntries else .eachEntry key) v) := by
  unfold Site.decodeMap
  split
  case h_4 v hbytes =>
    rw [isShared_scalar hbytes, if_pos rfl]
    refine .pure (.bare (by simp) ?_)
    rw [show ".putAll(pb.get" = ".putAll(" ++ "pb.get" from rfl,
      show "Map());" = "Map()" ++ ");" from rfl, getterWhole_eq]
    exact .allEntries
  all_goals
    refine (yields_isCalled _).bind fun entry hentry => ?_
    refine (elementType_protoElement s rfl).bind fun type ht => ?_
    refine (decoded_decodes s _ _).bind fun e he => .pure (.bare (by simp [isShared]) ?_)
    rw [getterLoop_eq, accessorEnd_eq, boxed_eq_keyClass]
    exact .eachEntry hentry ht he

theorem decodeField_moves : Yields AnyImports (s.decodeField m) (s.decoding.ForField m) := by
  unfold Site.decodeField Direction.ForField
  cases m.property.kind with
  | scalar v repeated =>
    cases repeated
    · exact decodeSingle_moves s m _
    · exact decodeList_moves s m _
  | message id repeated =>
    cases repeated
    · exact decodeSingle_moves s m _
    · exact decodeList_moves s m _
  | enum id repeated =>
    cases repeated
    · exact decodeSingle_moves s m _
    · exact decodeList_moves s m _
  | map key v => exact decodeMap_moves s m key v
  | variant oneof v => exact .pure rfl
  | extension extendee v repeated => exact .pure rfl

theorem decodeArm_arm (x : Variant) : Yields AnyImports (s.decodeArm x)
    (Option.Rel (s.decoding.arm x.names x.member.names) x.member.property.value?) := by
  unfold Site.decodeArm
  split
  · next h =>
    rw [h]
    exact .pure .none
  · next v h =>
    rw [h]
    refine (decoded_decodes s _ v).bind fun e he => .pure (.some ⟨rfl, e, ?_, rfl⟩)
    rwa [accessorEnd_eq] at he

theorem decodeItem_item (item : Item) :
    Yields AnyImports (s.decodeItem item) (s.decoding.ForItem item) := by
  cases item with
  | field m => exact decodeField_moves s m
  | union u =>
    exact (Yields.mapM fun x _ => decodeArm_arm s x).bind fun arms ha => .pure ⟨arms, ha, rfl⟩

end Decoding

section Encoding

variable (s : Site) (m : Member)

/-- Accessors for scalars have no ending. -/
theorem opening_eq (v : Scalar) (verb stem : String) :
    verb ++ stem ++ "(" = verb ++ stem ++ s.ending (.scalar v) ++ "(" := by
  rw [Site.ending, String.append_empty]

theorem encodeScalar_moves (v : Scalar) : Yields AnyImports (s.encodeScalar m v)
    (s.encoding.moves m.names m.property.nullable .single (.scalar v)) := by
  refine (encoded_encodes s _ (.scalar v)).bind fun e he => .pure ?_
  have hasked : (m.property.nullable || v.isReference) = true ↔
      ¬ (Transfer.single = .single ∧ m.property.nullable = false ∧ Primitive (.scalar v)) := by
    rw [Bool.or_eq_true, isReference_iff]
    cases m.property.nullable <;> simp
  split_ifs with h
  · refine .braced (hasked.mp h) ?_
    rw [opening_eq s v]
    exact .single he
  · refine .bare (mt hasked.mpr h) ?_
    rw [opening_eq s v]
    exact .single he

theorem encodeReference_moves {v : Value} (h : ¬ Primitive v) :
    Yields AnyImports (s.encodeReference m v)
      (s.encoding.moves m.names m.property.nullable .single v) := by
  refine (encoded_encodes s _ v).bind fun _ he => .pure ?_
  rw [accessorEnd_eq]
  exact .braced (fun hasked => h hasked.2.2) (.single he)

theorem encodeList_moves (v : Value) : Yields AnyImports (s.encodeList m v)
    (s.encoding.moves m.names m.property.nullable (if isShared v then .all else .each) v) := by
  unfold Site.encodeList
  split
  case h_4 v hbytes =>
    rw [isShared_scalar hbytes, if_pos rfl]
    refine .pure (.braced (by simp) ?_)
    rw [opening_eq s v]
    exact .all
  all_goals
    refine (type_beanElement s rfl).bind fun type ht => ?_
    refine (encoded_encodes s _ _).bind fun e he => .pure ?_
    rw [accessorEnd_eq]
    exact .braced (by simp [isShared]) (.each ht he)

theorem encodeMap_moves (key : Scalar) (v : Value) : Yields AnyImports (s.encodeMap m key v)
    (s.encoding.moves m.names m.property.nullable
      (if isShared v then .allEntries else .eachEntry key) v) := by
  unfold Site.encodeMap
  split
  case h_4 v hbytes =>
    rw [isShared_scalar hbytes, if_pos rfl]
    refine .pure (.braced (by simp) ?_)
    rw [opening_eq s v]
    exact .allEntries
  all_goals
    refine (yields_isCalled _).bind fun entry hentry => ?_
    refine (type_beanElement s rfl).bind fun type ht => ?_
    refine (encoded_encodes s _ _).bind fun e he => .pure (.braced (by simp [isShared]) ?_)
    rw [accessorEnd_eq, boxed_eq_keyClass]
    exact .eachEntry hentry ht he

theorem encodeField_moves : Yields AnyImports (s.encodeField m) (s.encoding.ForField m) := by
  unfold Site.encodeField Direction.ForField
  cases m.property.kind with
  | scalar v repeated =>
    cases repeated
    · exact encodeScalar_moves s m v
    · exact encodeList_moves s m _
  | message id repeated =>
    cases repeated
    · exact encodeReference_moves s m (by rintro ⟨⟩)
    · exact encodeList_moves s m _
  | enum id repeated =>
    cases repeated
    · exact encodeReference_moves s m (by rintro ⟨⟩)
    · exact encodeList_moves s m _
  | map key v => exact encodeMap_moves s m key v
  | variant oneof v => exact .pure rfl
  | extension extendee v repeated => exact .pure rfl

theorem encodeArm_arm (x : Variant) : Yields AnyImports (s.encodeArm x)
    (Option.Rel (s.encoding.arm x.names x.member.names) x.member.property.value?) := by
  unfold Site.encodeArm
  split
  · next h =>
    rw [h]
    exact .pure .none
  · next v h =>
    rw [h]
    refine (encoded_encodes s _ v).bind fun e he => .pure (.some ⟨rfl, e, he, _, rfl, ?_⟩)
    rw [accessorEnd_eq]
    dsimp only
    split_ifs with h
    · exact .inr ⟨canBeNull_iff.mp h, rfl⟩
    · exact .inl ⟨of_not_not (mt canBeNull_iff.mpr h), rfl⟩

theorem encodeItem_item (item : Item) :
    Yields AnyImports (s.encodeItem item) (s.encoding.ForItem item) := by
  cases item with
  | field m => exact encodeField_moves s m
  | union u =>
    exact (Yields.mapM fun x _ => encodeArm_arm s x).bind fun arms ha => .pure ⟨arms, ha, rfl⟩

end Encoding

/-- All statements of a direction are plain lines, and no field goes without. -/
structure Direction.Plain (d : Direction) : Prop where
  moves : ∀ {n nullable t v steps}, d.moves n nullable t v steps → PlainAll steps ∧ steps ≠ []
  arm : ∀ {w n v a}, d.arm w n v a → ∀ text ∈ a.statements, Ended text

section Plain

variable {steps : List Step}

theorem plain_switchOver (selector : String) {arms : List Arm}
    (h : ∀ arm ∈ arms, ∀ text ∈ arm.statements, Ended text) :
    PlainAll [switchOver selector arms] := by
  refine .braced _ (.append ?_ ⟨rfl, rfl, trivial⟩)
  rw [List.flatMap_def]
  refine .flatten fun steps hs => ?_
  obtain ⟨arm, harm, rfl⟩ := List.mem_map.mp hs
  have hlines : PlainAll (arm.statements.map fun text => .line ("    " ++ text)) := by
    rw [plainAll_iff, List.forall_mem_map]
    exact fun text ht => (h arm harm text ht).append _
  exact ⟨Ended.append _ rfl, hlines.append ⟨rfl, trivial⟩⟩

/-- Whatever is written for an item is plain lines. -/
theorem Direction.ForItem.plain {d : Direction} (hd : d.Plain) {item : Item}
    (h : d.ForItem item steps) : PlainAll steps := by
  cases item with
  | field m =>
    change d.ForField m steps at h
    unfold Direction.ForField at h
    split at h
    · exact (hd.moves h).1
    · exact h ▸ trivial
  | union u =>
    obtain ⟨arms, harms, rfl⟩ := h
    refine plain_switchOver _ fun arm harm => ?_
    obtain ⟨x, -, hx⟩ := forall₂_exists_right harms (List.reduceOption_mem_iff.mp harm)
    generalize x.member.property.value? = v? at hx
    cases hx with
    | some ha => exact hd.arm ha

end Plain

end ProtoJava.Converter
