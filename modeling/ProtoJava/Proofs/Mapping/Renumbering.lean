import ProtoJava.Proofs.Mapping.Shapes
import ProtoJava.Proofs.Naming.Renumbering

/-! # Properties under renumbering

What fields become in a renumbered graph differs in the numbers of types only, and their text does
not differ at all.
-/

namespace ProtoJava.Mapping

open Schema (Graph MessageId EnumId Field Message Index)

section Numbers

variable (ρ : Nat → Nat)

def Value.renumber : Value → Value
  | .scalar v => .scalar v
  | .message id => .message (id.renumber ρ)
  | .enum id => .enum (id.renumber ρ)

def Kind.renumber : Kind → Kind
  | .scalar v repeated => .scalar v repeated
  | .message id repeated => .message (id.renumber ρ) repeated
  | .enum id repeated => .enum (id.renumber ρ) repeated
  | .map key v => .map key (v.renumber ρ)
  | .variant oneof payload => .variant oneof (payload.renumber ρ)
  | .extension extendee payload repeated =>
    .extension (extendee.renumber ρ) (payload.renumber ρ) repeated

def Default.renumber : Default → Default
  | .literal text => .literal text
  | .enum id number => .enum (id.renumber ρ) number

def Property.renumber (p : Property) : Property :=
  { p with kind := p.kind.renumber ρ, default := p.default.map (·.renumber ρ) }

def Member.renumber (m : Member) : Member :=
  { m with property := m.property.renumber ρ }

def Variant.renumber (v : Variant) : Variant :=
  { v with member := v.member.renumber ρ }

def Union.renumber (u : Union) : Union :=
  { u with variants := u.variants.map (·.renumber ρ) }

def Item.renumber : Item → Item
  | .field m => .field (m.renumber ρ)
  | .union u => .union (u.renumber ρ)

def Shape.renumber (s : Shape) : Shape :=
  { s with
    members := s.members.map (·.renumber ρ)
    unions := s.unions.map (·.map (·.renumber ρ)) }

end Numbers

/-- Two contexts with the same files under other numbers. -/
structure Context.Renumbers (ρ : Nat → Nat) (ctx ctx' : Context) : Prop where
  graph : ctx.graph.Renumbers ρ ctx'.graph
  agree : ∀ m f, ctx.graph.Declares m f → Index.Agree ρ ctx.index ctx'.index f
  names : ctx.names.Renumbers ρ ctx'.names
  options : ctx'.options = ctx.options

section Classify

variable {ρ : Nat → Nat} {ctx ctx' : Context} (h : ctx.Renumbers ρ ctx') {f : Field}
  (hf : Index.Agree ρ ctx.index ctx'.index f)

theorem ofSchema_map {α β : Type} (x : Except Schema.Error α) (r : α → β) :
    ofSchema (x.map r) = (ofSchema x).map r := by
  cases x <;> rfl

include hf in
theorem value_renumber : ctx'.value f = (ctx.value f).map (Value.renumber ρ) := by
  unfold Scope.value
  cases ht : f.type with
  | message | group | enum =>
    have hname := hf.typeName (by rw [ht]; rfl)
    simp only [Scalar.ofType?, Schema.FieldType.isMessage, if_true, Bool.false_eq_true, if_false,
      Index.resolveMessage_renumber hname, Index.resolveEnum_renumber hname, ofSchema_map]
    generalize ofSchema _ = outcome
    cases outcome <;> rfl
  | _ => rfl

include h in
theorem mapOf_renumber (id : MessageId) :
    ctx'.mapOf (id.renumber ρ) = (ctx.mapOf id).map (Kind.renumber ρ) := by
  rw [Scope.mapOf, Scope.mapOf, h.graph.message]
  generalize (ctx.graph.message id).fields.find? (·.number = 1) = key?
  cases hvalue : (ctx.graph.message id).fields.find? (·.number = 2) with
  | none => cases key?.bind fun f => Scalar.ofType? f.type <;> rfl
  | some value =>
    have hfield := Graph.declares_field (List.mem_of_find?_eq_some hvalue)
    cases key?.bind fun f => Scalar.ofType? f.type with
    | none => rfl
    | some key =>
      dsimp only
      rw [value_renumber (h.agree _ _ hfield)]
      cases ctx.value value <;> rfl

include h in
theorem plainKind_renumber (repeated : Bool) (v : Value) :
    ctx'.plainKind repeated (v.renumber ρ) =
      (ctx.plainKind repeated v).map (Kind.renumber ρ) := by
  cases v with
  | scalar v => rfl
  | enum id => rfl
  | message id =>
    simp only [Value.renumber, Scope.plainKind, h.graph.message, mapOf_renumber h]
    split <;> rfl

include h hf

theorem kind_renumber (m : Option Message) (v : Value) :
    ctx'.kind m f (v.renumber ρ) = (ctx.kind m f v).map (Kind.renumber ρ) := by
  unfold Scope.kind
  cases hx : f.extendee with
  | some name =>
    dsimp only
    rw [Index.resolveMessage_renumber (hf.extendee name hx), ofSchema_map]
    generalize ofSchema _ = outcome
    cases outcome <;> rfl
  | none =>
    cases m.bind (·.union? f) with
    | some o => rfl
    | none => exact plainKind_renumber h _ v

omit hf in
theorem default_renumber (v : Value) :
    ctx'.default f (v.renumber ρ) = (ctx.default f v).map (Option.map (Default.renumber ρ)) := by
  unfold Scope.default
  split
  · rfl
  · cases v with
    | message id => rfl
    | scalar v => rfl
    | enum id =>
      dsimp only [Value.renumber]
      rw [h.graph.enumType]
      split <;> rfl

theorem classify_renumber (m : Option Message) :
    ctx'.classify m f = (ctx.classify m f).map (Property.renumber ρ) := by
  refine bind_eq_map (value_renumber hf) fun v _ => ?_
  refine bind_eq_map (kind_renumber h hf m v) fun kind _ => ?_
  refine bind_eq_map (default_renumber h v) fun default _ => ?_
  cases v <;> rfl

end Classify

section Shapes

variable {ρ : Nat → Nat} {ctx ctx' : Context}

theorem Union.of_renumber (members : List Member) (oneof : Schema.Oneof)
    (names : Naming.UnionNames) :
    Union.of (members.map (·.renumber ρ)) oneof names =
      (Union.of members oneof names).renumber ρ := by
  rw [Union.of, Union.of, Union.renumber, List.map_filterMap]
  congr 1
  refine List.filterMap_congr fun v _ => ?_
  rw [List.getElem?_map]
  cases members[v.fieldIndex]? <;> rfl

theorem Shape.ofProperties_renumber (m : Message) (n : Naming.MessageNames) (ps : List Property) :
    Shape.ofProperties m n (ps.map (·.renumber ρ)) = (Shape.ofProperties m n ps).renumber ρ := by
  have hmembers : List.zipWith Member.mk (ps.map (·.renumber ρ)) n.fields =
      (List.zipWith Member.mk ps n.fields).map (·.renumber ρ) := by
    rw [List.zipWith_map_left, List.map_zipWith]
    rfl
  have hunions : ∀ members : List Member,
      List.zipWith (fun o n => n.map (Union.of (members.map (·.renumber ρ)) o)) m.oneofs n.unions =
        (List.zipWith (fun o n => n.map (Union.of members o)) m.oneofs n.unions).map
          (·.map (·.renumber ρ)) := by
    intro members
    rw [List.map_zipWith]
    congr 1
    funext oneof names
    cases names with
    | none => rfl
    | some names => exact congrArg some (Union.of_renumber members oneof names)
  simp only [Shape.ofProperties, Shape.renumber, hmembers, hunions]

theorem Shape.of_renumber (h : ctx.Renumbers ρ ctx') (id : MessageId) :
    Shape.of ctx' (id.renumber ρ) = (Shape.of ctx id).map (Shape.renumber ρ) := by
  rw [Shape.of, Shape.of, h.graph.message, h.names.message]
  have hps : (ctx.graph.message id).fields.mapM (ctx'.classify (some (ctx.graph.message id))) =
      ((ctx.graph.message id).fields.mapM (ctx.classify (some (ctx.graph.message id)))).map
        (List.map (Property.renumber ρ)) := by
    have hfield : ∀ f ∈ (ctx.graph.message id).fields,
        ctx'.classify (some (ctx.graph.message id)) f =
          (ctx.classify (some (ctx.graph.message id)) f).map (Property.renumber ρ) :=
      fun f hf => classify_renumber h (h.agree _ _ (Graph.declares_field hf)) _
    exact mapM_eq_map hfield
  exact bind_eq_map hps fun ps _ => congrArg Except.ok (Shape.ofProperties_renumber _ _ ps)

theorem Shape.union_renumber (s : Shape) (oneof : Nat) :
    (s.renumber ρ).unions[oneof]?.join = (s.unions[oneof]?.join).map (Union.renumber ρ) := by
  rw [Shape.renumber, List.getElem?_map]
  rcases s.unions[oneof]? with _ | _ | u <;> rfl

theorem Shape.item?_renumber (s : Shape) (m : Member) :
    (s.renumber ρ).item? (m.renumber ρ) = (s.item? m).map (Item.renumber ρ) := by
  unfold Shape.item?
  cases hk : m.property.kind with
  | variant oneof payload =>
    have hkind : (m.renumber ρ).property.kind = .variant oneof (payload.renumber ρ) := by
      rw [Member.renumber, Property.renumber, hk]
      rfl
    rw [hkind]
    dsimp only
    rw [Shape.union_renumber]
    cases s.unions[oneof]?.join with
    | none => rfl
    | some u =>
      dsimp only [Option.map_some]
      rw [apply_ite (Option.map (Item.renumber ρ))]
      rfl
  | _ =>
    have hkind : (m.renumber ρ).property.kind = m.property.kind.renumber ρ := rfl
    rw [hkind, hk]
    rfl

theorem Shape.items_renumber (s : Shape) :
    (s.renumber ρ).items = s.items.map (Item.renumber ρ) := by
  rw [Shape.items, Shape.items, List.map_filterMap]
  change (s.members.map (·.renumber ρ)).filterMap (s.renumber ρ).item? = _
  rw [List.filterMap_map]
  exact List.filterMap_congr fun m _ => s.item?_renumber m

end Shapes

section Texts

variable {ρ : Nat → Nat} {ctx ctx' : Context}

@[simp]
theorem Property.describe_renumber (p : Property) (dialect : Schema.Dialect) :
    (p.renumber ρ).describe dialect = p.describe dialect := by
  obtain ⟨field, kind, default, nullable⟩ := p
  cases kind <;> rfl

@[simp]
theorem Property.value?_renumber (p : Property) :
    (p.renumber ρ).value? = p.value?.map (Value.renumber ρ) := by
  obtain ⟨field, kind, default, nullable⟩ := p
  cases kind <;> rfl

@[simp]
theorem Property.isBytes_renumber (p : Property) : (p.renumber ρ).isBytes = p.isBytes := by
  unfold Property.isBytes
  rw [Property.value?_renumber]
  rcases p.value? with _ | (v | id | id) <;> rfl

@[simp]
theorem Property.ofConstant_renumber (p : Property) (constant : String) :
    (p.renumber ρ).ofConstant constant = p.ofConstant constant := by
  rw [Property.ofConstant, Property.isBytes_renumber, Property.ofConstant]

variable (h : ctx.Renumbers ρ ctx')

include h

theorem referMessage_renumber (id : MessageId) :
    ctx'.referMessage (id.renumber ρ) = ctx.referMessage id :=
  congrArg refer (h.names.messageClass h.graph id)

theorem referEnum_renumber (id : EnumId) : ctx'.referEnum (id.renumber ρ) = ctx.referEnum id :=
  congrArg refer (h.names.enumClass h.graph id)

theorem firstConstant_renumber (id : EnumId) :
    ctx'.firstConstant (id.renumber ρ) = ctx.firstConstant id := by
  rw [Context.firstConstant, Context.firstConstant, h.names.enumNames, referEnum_renumber h]

theorem Value.type_renumber (boxed : Bool) (v : Value) :
    (v.renumber ρ).type ctx' boxed = v.type ctx boxed := by
  cases v with
  | scalar v => rfl
  | message id => exact referMessage_renumber h id
  | enum id => exact referEnum_renumber h id

theorem Value.zero_renumber (v : Value) : (v.renumber ρ).zero ctx' = v.zero ctx := by
  cases v with
  | scalar v => rfl
  | message id => rfl
  | enum id => exact firstConstant_renumber h id

theorem repeatedType_renumber (v : Value) (repeated boxed : Bool) :
    Property.repeatedType ctx' (v.renumber ρ) repeated boxed =
      Property.repeatedType ctx v repeated boxed := by
  simp only [Property.repeatedType, Value.type_renumber h]

theorem Property.type_renumber (p : Property) : (p.renumber ρ).type ctx' = p.type ctx := by
  obtain ⟨field, kind, default, nullable⟩ := p
  cases kind with
  | scalar v repeated => exact repeatedType_renumber h (.scalar v) _ _
  | message id repeated => exact repeatedType_renumber h (.message id) _ _
  | enum id repeated => exact repeatedType_renumber h (.enum id) _ _
  | extension extendee payload repeated => exact repeatedType_renumber h payload _ _
  | variant oneof payload => exact Value.type_renumber h false payload
  | map key v =>
    have hvalue := Value.type_renumber h true v
    simp only [Property.type, Property.renumber, Kind.renumber, hvalue]

theorem Property.defaultValue_renumber (p : Property) :
    (p.renumber ρ).defaultValue ctx' = p.defaultValue ctx := by
  obtain ⟨field, kind, default, nullable⟩ := p
  rcases default with _ | (text | ⟨id, number⟩)
  · rfl
  · rfl
  · simp only [Property.defaultValue, Property.renumber, Option.map_some, Default.renumber,
      referEnum_renumber h]

theorem Property.initializer_renumber (p : Property) (constant : Option String) :
    (p.renumber ρ).initializer ctx' constant = p.initializer ctx constant := by
  unfold Property.initializer
  cases constant with
  | some constant => simp only [Property.ofConstant_renumber]
  | none =>
    obtain ⟨field, kind, default, nullable⟩ := p
    cases nullable with
    | true => rfl
    | false =>
      cases kind with
      | scalar v repeated => cases repeated <;> cases v <;> rfl
      | message id repeated => cases repeated <;> rfl
      | enum id repeated =>
        have hfirst := firstConstant_renumber h id
        cases repeated with
        | true => rfl
        | false => simp only [Property.renumber, Kind.renumber, hfirst]
      | _ => rfl

theorem Property.fallback_renumber (p : Property) (constant : Option String) :
    (p.renumber ρ).fallback ctx' constant = p.fallback ctx constant := by
  unfold Property.fallback
  cases constant with
  | some constant => simp only [Property.ofConstant_renumber]
  | none =>
    obtain ⟨field, kind, default, nullable⟩ := p
    cases kind with
    | variant oneof payload => exact Value.zero_renumber h payload
    | _ => rfl

end Texts

end ProtoJava.Mapping
