import ProtoJava.Proofs.Mapping.Literals
import ProtoJava.Proofs.Mapping.Referring
import ProtoJava.Proofs.Mapping.Shapes
import ProtoJava.Proofs.Naming.Identifiers

/-! # Rendered properties

The types and expressions of a property leave open brackets as they are, and what they import is
neutral, too.
-/

namespace ProtoJava.Mapping

open Java
open Schema (MessageId EnumId Dialect)

/-- A context of a graph of spelled files that has been built, with proper names for them. -/
structure Context.Proper (ctx : Context) : Prop where
  linked : ∀ i, (ctx.graph.file i).Linked
  spelled : ctx.graph.Spelled
  resolve : ∀ name ref, ctx.index.resolve name = .ok ref → Inline name
  fullName : ∀ id, Inline (ctx.graph.message id).fullName
  typeName : ∀ id, ∀ t ∈ (ctx.graph.message id).typeName, Neutral t
  enumTypeName : ∀ id, ∀ t ∈ (ctx.graph.enumType id).typeName, Neutral t
  converterPackage : Naming.isPackageName ctx.options.converterPackage.toList
  names : ctx.names.Proper
  messageNames : ∀ id, id.index < (ctx.graph.file id.file).messages.length →
    (ctx.names.message id).Proper
  enumNames : ∀ id, id.index < (ctx.graph.file id.file).enums.length →
    (ctx.names.enumNames id).Proper

/-- Text that is neutral whatever has been imported, as long as that is neutral. -/
abbrev Gives (x : Referring String) : Prop :=
  Yields Imports.Tidy x Neutral

/-- Text of the same kind that may be missing. -/
abbrev GivesAny (x : Referring (Option String)) : Prop :=
  Yields Imports.Tidy x fun r => ∀ text ∈ r, Neutral text

theorem refer_gives {c : ClassName} (h : c.Neutral) : Gives (refer c) :=
  fun _ hi => Imports.reference_tidy hi h

section Values

variable {ctx : Context} (hctx : ctx.Proper)

theorem neutral_library {package name : String} (hp : Neutral package) (hn : Neutral name) :
    (ClassName.top package name).Neutral :=
  ClassName.neutral_top hp hn

theorem neutral_boxed (s : Scalar) : Neutral s.boxed := by
  cases s <;> exact fun _ => .lit rfl

theorem neutral_primitive (s : Scalar) : Neutral s.primitive := by
  cases s <;> exact fun _ => .lit rfl

theorem neutral_zero (s : Scalar) : Neutral s.zero := by
  cases s <;> exact fun _ => .lit rfl

include hctx

theorem referMessage_gives (id : MessageId) : Gives (ctx.referMessage id) :=
  refer_gives (hctx.names.neutral_messageClass id)

theorem referEnum_gives (id : EnumId) : Gives (ctx.referEnum id) :=
  refer_gives (hctx.names.neutral_enumClass id)

theorem firstConstant_gives (id : EnumId) : Gives (ctx.firstConstant id) := by
  have hconstants := hctx.names.neutral_constant id
  unfold Context.firstConstant
  split
  · exact Yields.pure fun _ => .lit rfl
  · next constant rest hc =>
    rw [hc, List.forall_mem_cons] at hconstants
    refine (referEnum_gives hctx id).bind fun name hn => Yields.pure ?_
    exact (hn.append fun _ => .lit rfl).append hconstants.1

theorem Value.type_gives (boxed : Bool) (v : Value) : Gives (v.type ctx boxed) := by
  cases v with
  | scalar s =>
    refine Yields.pure ?_
    split
    · exact neutral_boxed s
    · exact neutral_primitive s
  | message id => exact referMessage_gives hctx id
  | enum id => exact referEnum_gives hctx id

theorem Value.zero_gives (v : Value) : Gives (v.zero ctx) := by
  cases v with
  | scalar s => exact Yields.pure (neutral_zero s)
  | message id => exact Yields.pure fun _ => .lit rfl
  | enum id => exact firstConstant_gives hctx id

omit hctx in
theorem listType_gives {item : String} (h : Neutral item) : Gives (listType item) := by
  have hlist : listClass.Neutral := neutral_library (fun _ => .lit rfl) fun _ => .lit rfl
  refine (refer_gives hlist).bind fun name hn => Yields.pure ?_
  exact ((hn.append fun _ => .lit rfl).append h).append fun _ => .lit rfl

theorem Property.repeatedType_gives (v : Value) (repeated boxed : Bool) :
    Gives (Property.repeatedType ctx v repeated boxed) := by
  unfold Property.repeatedType
  split
  · exact (Value.type_gives hctx true v).bind fun item hi => listType_gives hi
  · exact Value.type_gives hctx boxed v

theorem Property.type_gives (p : Property) : Gives (p.type ctx) := by
  unfold Property.type
  split
  · exact repeatedType_gives hctx _ _ _
  · exact repeatedType_gives hctx _ _ _
  · exact repeatedType_gives hctx _ _ _
  · exact repeatedType_gives hctx _ _ _
  · exact Value.type_gives hctx _ _
  · next key v _ =>
    have hmap : mapClass.Neutral := neutral_library (fun _ => .lit rfl) fun _ => .lit rfl
    refine (refer_gives hmap).bind fun map hm => ?_
    refine (Value.type_gives hctx true v).bind fun type ht => Yields.pure ?_
    refine (Neutral.append (Neutral.append ?_ fun _ => .lit rfl) ht).append fun _ => .lit rfl
    exact (hm.append fun _ => .lit rfl).append (neutral_boxed key)

end Values

/-- A property whose declaration is within a line and whose default is neutral. -/
structure Property.Proper (p : Property) : Prop where
  described : ∀ dialect, Inline (p.describe dialect)
  default : ∀ text, p.default = some (.literal text) → Neutral text

section Properties

variable {ctx : Context} {p : Property} {constant : Option String}

theorem neutral_ofConstant {name : String} (h : Neutral name) : Neutral (p.ofConstant name) := by
  unfold Property.ofConstant
  split
  · exact h.append fun _ => .lit rfl
  · exact h

theorem newInstance_gives {c : ClassName} (h : c.Neutral) : GivesAny (Property.newInstance c) := by
  refine (refer_gives h).bind fun _ _ => Yields.pure ?_
  rintro text ⟨⟩
  intro a
  exact .append (.append (.lit rfl) h.simple.turn) (.lit rfl)

theorem defaultValue_gives (hctx : ctx.Proper) (hp : p.Proper) :
    GivesAny (p.defaultValue ctx) := by
  unfold Property.defaultValue
  split
  · exact Yields.pure (by simp)
  · next text hd =>
    refine Yields.pure ?_
    rintro _ ⟨⟩
    exact hp.default text hd
  · next id number _ =>
    refine (referEnum_gives hctx id).bind fun name hn => Yields.pure ?_
    rintro _ ⟨⟩
    intro a
    exact .append (.append (.append hn.turn (.lit rfl)) (neutral_int number).turn) (.lit rfl)

theorem initializer_gives (hctx : ctx.Proper) (hc : ∀ name ∈ constant, Neutral name) :
    GivesAny (p.initializer ctx constant) := by
  have harray : arrayListClass.Neutral := neutral_library (fun _ => .lit rfl) fun _ => .lit rfl
  have hhash : hashMapClass.Neutral := neutral_library (fun _ => .lit rfl) fun _ => .lit rfl
  unfold Property.initializer
  split
  · refine Yields.pure ?_
    rintro _ ⟨⟩
    exact neutral_ofConstant (hc _ rfl)
  · split
    · exact Yields.pure (by simp)
    · split
      · exact newInstance_gives harray
      · exact newInstance_gives harray
      · exact newInstance_gives harray
      · exact newInstance_gives hhash
      · refine Yields.pure ?_
        rintro _ ⟨⟩
        exact fun _ => .lit rfl
      · refine (firstConstant_gives hctx _).bind fun name hn => Yields.pure ?_
        rintro _ ⟨⟩
        exact hn
      · exact Yields.pure (by simp)

theorem fallback_gives (hctx : ctx.Proper) (hc : ∀ name ∈ constant, Neutral name) :
    Gives (p.fallback ctx constant) := by
  unfold Property.fallback
  split
  · exact Yields.pure (neutral_ofConstant (hc _ rfl))
  · split
    · exact Value.zero_gives hctx _
    · exact Yields.pure fun _ => .lit rfl

end Properties

section Classify

variable {s : Scope} {m : Option Schema.Message} {f : Schema.Field} {p : Property}

/-- A field of a named type has a value of it, so its type can be resolved. -/
theorem resolve_of_value {v : Value} (h : s.value f = .ok v) (ht : f.type.isNamed) :
    ∃ ref, s.index.resolve f.typeName = .ok ref := by
  have hscalar : Scalar.ofType? f.type = none := by
    cases hf : f.type <;> simp_all [Schema.FieldType.isNamed, Scalar.ofType?]
  cases hr : s.index.resolve f.typeName with
  | ok ref => exact ⟨ref, rfl⟩
  | error e =>
    rw [Scope.value, hscalar] at h
    simp only [Schema.Index.resolveMessage, Schema.Index.resolveEnum, hr] at h
    split at h <;> exact absurd h (by rintro ⟨⟩)

theorem inline_describe {dialect : Dialect} (hf : f.Spelled)
    (ht : f.type.isNamed → Inline f.typeName) {p : Property} (hp : p.field = f) :
    Inline (p.describe dialect) := by
  have hname : Inline f.name := (Naming.neutral_of_isName hf.name).inline
  have hkeyword : Inline f.cardinality.keyword := by
    cases f.cardinality <;> exact .lit (by decide)
  have hword : Inline (if f.isRepeated then "repeated "
      else if dialect = .proto3 ∧ ¬ f.proto3Optional then ""
      else f.cardinality.keyword ++ " ") := by
    split_ifs
    · exact .lit (by decide)
    · exact .lit (by decide)
    · exact hkeyword.append (.lit (by decide))
  have htype : Inline (if f.type.isNamed then
      String.ofList (f.typeName.toList.dropWhile (· = '.')) else f.type.keyword) := by
    split_ifs with h
    · refine .lit fun hm => ht h ?_
      exact (List.dropWhile_sublist _).subset hm
    · cases f.type <;> exact .lit (by decide)
  have hnumber : Inline (toString f.number) := (neutral_int f.number).inline
  have hwire : Inline f.type.wireCategory.name := by
    cases f.type <;> exact .lit (by decide)
  have hlead : ∀ lead, Inline lead →
      Inline (lead ++ " " ++ f.name ++ " = " ++ toString f.number ++ "; (" ++
        f.type.wireCategory.name ++ ")") := by
    intro lead h
    refine Inline.append (Inline.append (Inline.append ?_ (.lit (by decide))) hwire)
      (.lit (by decide))
    refine Inline.append (Inline.append (Inline.append ?_ hname) (.lit (by decide))) hnumber
    exact h.append (.lit (by decide))
  subst hp
  unfold Property.describe
  refine hlead _ ?_
  split
  · exact .lit (by decide)
  · exact hword.append htype

/-- A field of a spelled file becomes a proper property. -/
theorem classify_proper (hr : ∀ name ref, s.index.resolve name = .ok ref → Inline name)
    (hf : f.Spelled) (h : s.classify m f = .ok p) : p.Proper := by
  obtain ⟨v, hv, -, hd, hfield⟩ := classify_ok h
  constructor
  case described =>
    intro dialect
    refine inline_describe hf (fun ht => ?_) hfield
    obtain ⟨ref, href⟩ := resolve_of_value hv ht
    exact hr _ ref href
  case default =>
    intro text ht
    rw [Scope.default] at hd
    split at hd
    · rw [← Except.ok.inj hd] at ht
      simp at ht
    · next given hgiven =>
      have hgiven : f.defaultValue = some given := by
        split at hgiven
        · simp at hgiven
        · exact hgiven
      rw [ht] at hd
      cases v with
      | message id => simp at hd
      | scalar scalar =>
        have htext : scalar.literal given = text := by simpa using hd
        have htype : Scalar.ofType? f.type = some scalar := by
          rw [Scope.value] at hv
          split at hv
          · next hs =>
            rw [hs]
            simpa using hv
          · split at hv <;> simp [map_eq_ok_iff] at hv
        rw [← htext]
        exact neutral_literal hf htype hgiven
      | enum id =>
        simp only at hd
        split at hd <;> simp at hd

end Classify

structure Member.Proper (m : Member) : Prop where
  property : m.property.Proper
  names : m.names.Proper

structure Variant.Proper (v : Variant) : Prop where
  names : v.names.Proper
  member : v.member.Proper

structure Union.Proper (u : Union) : Prop where
  names : u.names.Proper
  variants : ∀ v ∈ u.variants, v.Proper

/-- A shape with proper names and properties. -/
structure Shape.Proper (s : Shape) : Prop where
  names : s.names.Proper
  members : ∀ m ∈ s.members, m.Proper
  unions : ∀ u, some u ∈ s.unions → u.Proper

def Item.Proper : Item → Prop
  | .field m => m.Proper
  | .union u => u.Proper

section Shapes

variable {m : Schema.Message} {n : Naming.MessageNames} {ps : List Property}

theorem Union.of_proper {members : List Member} {oneof : Schema.Oneof} {names : Naming.UnionNames}
    (hm : ∀ m ∈ members, m.Proper) (hn : names.Proper) : (Union.of members oneof names).Proper := by
  refine ⟨hn, fun v hv => ?_⟩
  obtain ⟨names, hnames, hv⟩ := List.mem_filterMap.mp hv
  obtain ⟨member, hmember, rfl⟩ := Option.map_eq_some_iff.mp hv
  exact ⟨hn.variants names hnames, hm member (List.mem_of_getElem? hmember)⟩

theorem Shape.ofProperties_proper (hn : n.Proper) (hp : ∀ p ∈ ps, p.Proper) :
    (Shape.ofProperties m n ps).Proper := by
  have hmembers : ∀ member ∈ (Shape.ofProperties m n ps).members, member.Proper := by
    intro member hmem
    obtain ⟨p, hps, names, hnames, rfl⟩ := mem_of_mem_zipWith hmem
    exact ⟨hp p hps, hn.fields names hnames⟩
  refine ⟨hn, hmembers, fun u hu => ?_⟩
  obtain ⟨oneof, -, names, hnames, he⟩ := mem_of_mem_zipWith hu
  obtain ⟨names, rfl, rfl⟩ := Option.map_eq_some_iff.mp he
  exact Union.of_proper hmembers (hn.unions names hnames)

variable {ctx : Context} {id : MessageId} {s : Shape}

theorem Context.Proper.message_spelled (hctx : ctx.Proper)
    (hi : id.index < (ctx.graph.file id.file).messages.length) :
    (ctx.graph.message id).Spelled := by
  have hfile := Schema.Graph.file_of_lt (Naming.file_lt (Or.inl hi))
  exact (hctx.spelled _ hfile).messages _ (Schema.File.message_mem hi)

theorem Shape.of_proper (hctx : ctx.Proper)
    (hi : id.index < (ctx.graph.file id.file).messages.length) (h : Shape.of ctx id = .ok s) :
    s.Proper ∧ s.message = ctx.graph.message id := by
  obtain ⟨ps, hps, rfl⟩ := Shape.of_eq_ok_iff.mp h
  refine ⟨ofProperties_proper (hctx.messageNames id hi) fun p hp => ?_, rfl⟩
  obtain ⟨f, hf, hp⟩ := forall₂_exists_right hps hp
  exact classify_proper hctx.resolve ((hctx.message_spelled hi).fields f hf) hp

/-- The items of a proper shape are its members and its unions. -/
theorem Shape.Proper.items (h : s.Proper) : ∀ item ∈ s.items, item.Proper := by
  intro item hi
  obtain ⟨m, hm, rfl⟩ | ⟨u, hu, rfl⟩ := Shape.items_cases hi
  · exact h.members m hm
  · exact h.unions u hu

end Shapes

end ProtoJava.Mapping
