import ProtoJava.Proofs.Mapping.Faults
import ProtoJava.Proofs.Mapping.Mentions
import ProtoJava.Proofs.Schema.Entries

/-! # Folded maps

A field of the type of a map entry becomes a map, and no value is a map entry. So the names that
map entries have do not matter to any text.
-/

namespace ProtoJava

namespace Naming

open Schema (Graph MessageId EnumId)

/-- Names of the same files that differ in those of map entries only. -/
structure Allocation.AgreesBeside (g : Graph) (a a' : Allocation) : Prop where
  file : ∀ i, { a'.file i with messages := [] } = { a.file i with messages := [] }
  message : ∀ id, (g.message id).mapEntry = false → a'.message id = a.message id

/-- Other names for one message. -/
def Allocation.rename (a : Allocation) (id : MessageId) (n : MessageNames) : Allocation :=
  ⟨a.files.modify id.file fun f => { f with messages := f.messages.set id.index n }⟩

theorem Allocation.file_rename (a : Allocation) (id : MessageId) (n : MessageNames) (i : Nat) :
    (a.rename id n).file i = if id.file = i then
      { a.file i with messages := (a.file i).messages.set id.index n } else a.file i := by
  rw [Allocation.file, Allocation.file, Allocation.rename, List.getD_eq_getElem?_getD,
    List.getD_eq_getElem?_getD, List.getElem?_modify]
  by_cases hi : id.file = i
  · rw [if_pos hi]
    cases a.files[i]? with
    | some f => simp only [Option.map_eq_map, Option.map_some, Option.getD_some, if_pos hi]
    | none => rfl
  · simp only [if_neg hi, Option.map_eq_map, Option.map_id']

/-- To rename a map entry changes the names of map entries only. -/
theorem Allocation.agreesBeside_rename {g : Graph} (a : Allocation) {id : MessageId}
    (hid : (g.message id).mapEntry) (n : MessageNames) : a.AgreesBeside g (a.rename id n) := by
  constructor
  case file =>
    intro i
    rw [a.file_rename]
    split
    · rfl
    · rfl
  case message =>
    intro id' hid'
    have hne : id ≠ id' := by
      rintro rfl
      exact Bool.noConfusion (hid'.symm.trans hid)
    rw [Allocation.message, Allocation.message, a.file_rename]
    split
    · next hfile =>
      have hindex : id.index ≠ id'.index := by
        intro hindex
        cases id
        cases id'
        exact hne (congrArg₂ MessageId.mk hfile hindex)
      rw [List.getD_eq_getElem?_getD, List.getElem?_set_ne hindex, List.getD_eq_getElem?_getD]
    · rfl

namespace Allocation.AgreesBeside

variable {g : Graph} {a a' : Allocation} (h : a.AgreesBeside g a')

include h

/-- What is read off the names of a file apart from those of its messages is the same. -/
theorem of_file {α : Type} (read : FileNames → α)
    (hread : ∀ n, read { n with messages := [] } = read n) (i : Nat) :
    read (a'.file i) = read (a.file i) := by
  rw [← hread (a'.file i), h.file, hread]

theorem enumNames (id : EnumId) : a'.enumNames id = a.enumNames id :=
  h.of_file (·.enums.getD id.index default) (fun _ => rfl) id.file

theorem protoClass (i : Nat) (typeName : List String) :
    a'.protoClass i typeName = a.protoClass i typeName :=
  h.of_file (fun n => (⟨n.protoPackage, n.protoOuterClass.toList ++ typeName⟩ : Java.ClassName))
    (fun _ => rfl) i

theorem converterClass (package : String) (i : Nat) :
    a'.converterClass package i = a.converterClass package i :=
  h.of_file (fun n => Java.ClassName.top package n.converterClass) (fun _ => rfl) i

theorem beanPackage (i : Nat) : (a'.file i).beanPackage = (a.file i).beanPackage :=
  h.of_file (·.beanPackage) (fun _ => rfl) i

theorem wrapperClass (i : Nat) : (a'.file i).wrapperClass = (a.file i).wrapperClass :=
  h.of_file (·.wrapperClass) (fun _ => rfl) i

variable (hl : ∀ i, (g.file i).Linked) (hleaf : ∀ i, (g.file i).LeafEntries)

include hl hleaf

theorem around {i : Nat} {parent : Option Nat}
    (hp : ∀ p ∈ parent, ((g.file i).message p).mapEntry = false) :
    a'.around g i parent = a.around g i parent := by
  unfold Allocation.around
  rw [h.wrapperClass]
  cases parent with
  | none => rfl
  | some p =>
    refine congrArg _ (List.map_congr_left fun j hj => ?_)
    have hentry := (hleaf i).of_mem_enclosing (hl i) (hp p rfl) (List.mem_reverse.mp hj)
    rw [h.message ⟨i, j⟩ hentry]

theorem messageClass {id : MessageId} (hid : (g.message id).mapEntry = false) :
    a'.messageClass g id = a.messageClass g id := by
  have haround : a'.around g id.file (g.message id).parent =
      a.around g id.file (g.message id).parent :=
    h.around hl hleaf fun p hp => (hleaf id.file).of_parent (hl id.file) hp
  rw [Allocation.messageClass, Allocation.messageClass, h.message id hid, h.beanPackage, haround]

theorem enumClass (id : EnumId) : a'.enumClass g id = a.enumClass g id := by
  have haround : a'.around g id.file (g.enumType id).parent =
      a.around g id.file (g.enumType id).parent :=
    h.around hl hleaf fun p hp => (hleaf id.file).of_enum_parent (hl id.file) hp
  rw [Allocation.enumClass, Allocation.enumClass, h.enumNames, h.beanPackage, haround]

end Allocation.AgreesBeside

end Naming

namespace Mapping

open Schema (Graph MessageId EnumId Message Field)

/-- A value that is no map entry. -/
def Value.NoEntry (g : Graph) : Value → Prop
  | .message id => (g.message id).mapEntry = false
  | _ => True

/-- A field becomes a map, from the first field of its entries that is numbered 1 to the first one
that is numbered 2. -/
def Folds (g : Graph) (m : Option Message) (x : Field) (entry : MessageId) : Prop :=
  ∃ key ∈ (g.message entry).fields.find? (·.number = 1),
    ∃ value ∈ (g.message entry).fields.find? (·.number = 2),
      ∃ k v, Scalar.ofType? key.type = some k ∧ (scopeOf g).value value = .ok v ∧
        v.NoEntry g ∧ (scopeOf g).classify m x = .ok ⟨x, .map k v, none, false⟩

section Classify

variable {raws : List Descriptor.File} {g : Graph} {m : Option Message} {x : Field}
  {entry : MessageId}

theorem value_eq_message_iff_target :
    (scopeOf g).value x = .ok (.message entry) ↔ g.target? x = some entry := by
  rw [Graph.target?]
  rcases Scalar.ofType?_cases x.type with ⟨scalar, ht⟩ | ht | ht
  · have hm : ¬ x.type.isMessage := fun h =>
      nomatch ht.symm.trans (Scalar.ofType?_of_isMessage h)
    simp [value_of_scalar ht, hm]
  · rw [Scope.value, Scalar.ofType?_of_isMessage ht, if_pos ht]
    cases hresolve : g.index.resolveMessage x.typeName <;>
      simp [ht, ofSchema, Except.map, Except.toOption]
  · rw [Scope.value, ht]
    cases hresolve : g.index.resolveEnum x.typeName <;>
      simp [Scalar.ofType?, Schema.FieldType.isMessage, ofSchema, Except.map]

/-- A value of a field is a map entry only if the field is of that type. -/
theorem noEntry_of_value {v : Value} (hv : (scopeOf g).value x = .ok v)
    (hx : ∀ id ∈ g.target? x, (g.message id).mapEntry = false) : v.NoEntry g := by
  cases v with
  | scalar v => trivial
  | enum id => trivial
  | message id => exact hx id (value_eq_message_iff_target.mp hv)

variable (hg : Graph.build raws = .ok g) (hr : ∀ m f, g.Declares m f → g.Refers f)

include hg hr

theorem folds_of_mapField (ht : entry ∈ g.target? x) (he : (g.message entry).mapEntry)
    (hx : g.MapField m x entry)
    (hvalues : ∀ value ∈ (g.message entry).fields.find? (·.number = 2), ∀ id ∈ g.target? value,
      (g.message id).mapEntry = false) : Folds g m x entry := by
  obtain ⟨key, hkey, hscalar⟩ := hx.key
  obtain ⟨value, hvalue⟩ := Option.isSome_iff_exists.mp hx.value
  obtain ⟨k, hk⟩ : ∃ k, Scalar.ofType? key.type = some k := by
    rw [← Option.ne_none_iff_exists', ne_eq, Scalar.ofType?_eq_none_iff, hscalar]
    exact Bool.false_ne_true
  have hdeclared := Graph.declares_field (List.mem_of_find?_eq_some hvalue)
  obtain ⟨v, hv⟩ := exists_value hg (hr _ _ hdeclared)
  refine ⟨key, hkey, value, hvalue, k, v, hk, hv, noEntry_of_value hv (hvalues value hvalue), ?_⟩
  have hentry : (scopeOf g).value x = .ok (.message entry) := value_eq_message_iff_target.mpr ht
  have hmap : (scopeOf g).mapOf entry = .ok (.map k v) := by
    simp [Scope.mapOf, Option.mem_def.mp hkey, hvalue, hk, hv, Except.map]
  have hkind : (scopeOf g).kind m x (.message entry) = .ok (.map k v) := by
    rw [Scope.kind, hx.extendee, hx.union?]
    simp [Scope.plainKind, hx.isRepeated, he, hmap]
  have hdefault : (scopeOf g).default x (.message entry) = .ok none := by
    rw [Scope.default, if_pos hx.isRepeated]
  simp [Scope.classify, hentry, hkind, hdefault, bind, Except.bind, pure, Except.pure]

theorem folds (hm : g.RegularMaps) (hx : g.Declares m x) (ht : entry ∈ g.target? x)
    (he : (g.message entry).mapEntry) : Folds g m x entry :=
  folds_of_mapField hg hr ht he (hm.fields m x hx entry ht he) (hm.values m x hx entry ht he)

/-- No value is a map entry: a field of that type holds the values of its map. -/
theorem noEntry_of_classify (hm : g.RegularMaps) (hx : g.Declares m x) {p : Property}
    (hp : (scopeOf g).classify m x = .ok p) {v : Value} (hv : v ∈ p.values) : v.NoEntry g := by
  have hfold : ∀ entry, (scopeOf g).value x = .ok (.message entry) →
      (g.message entry).mapEntry → v.NoEntry g := by
    intro entry hentry he
    obtain ⟨_, -, _, -, k, w, -, -, hw, hclassify⟩ :=
      folds hg hr hm hx (value_eq_message_iff_target.mp hentry) he
    obtain rfl := Except.ok.inj (hp.symm.trans hclassify)
    obtain rfl : v = w := by simpa [Property.values, Kind.element] using hv
    exact hw
  rcases value_of_classify hp hv with hvalue | ⟨entry, key, hvalue, -, he, -⟩
  · cases v with
    | scalar v => trivial
    | enum id => trivial
    | message id =>
      by_contra hentry
      exact hentry (hfold id hvalue (by simpa [Value.NoEntry] using hentry))
  · exact hfold entry hvalue he

end Classify

/-- Two contexts that differ in the names of map entries only, and the entries hold no types. -/
structure Context.RenamesEntries (ctx ctx' : Context) : Prop where
  scope : ctx'.toScope = ctx.toScope
  options : ctx'.options = ctx.options
  names : ctx.names.AgreesBeside ctx.graph ctx'.names
  linked : ∀ i, (ctx.graph.file i).Linked
  leaf : ∀ i, (ctx.graph.file i).LeafEntries

section Texts

variable {ctx ctx' : Context} (h : ctx.RenamesEntries ctx')

include h

theorem Context.RenamesEntries.graph : ctx'.graph = ctx.graph :=
  congrArg Scope.graph h.scope

theorem referMessage_renamed {id : MessageId} (hid : (ctx.graph.message id).mapEntry = false) :
    ctx'.referMessage id = ctx.referMessage id := by
  rw [Context.referMessage, h.graph, h.names.messageClass h.linked h.leaf hid]
  rfl

theorem referEnum_renamed (id : EnumId) : ctx'.referEnum id = ctx.referEnum id := by
  rw [Context.referEnum, h.graph, h.names.enumClass h.linked h.leaf]
  rfl

theorem firstConstant_renamed (id : EnumId) : ctx'.firstConstant id = ctx.firstConstant id := by
  rw [Context.firstConstant, Context.firstConstant, h.names.enumNames, referEnum_renamed h]

theorem Value.type_renamed {v : Value} (hv : v.NoEntry ctx.graph) (boxed : Bool) :
    v.type ctx' boxed = v.type ctx boxed := by
  cases v with
  | scalar v => rfl
  | message id => exact referMessage_renamed h hv
  | enum id => exact referEnum_renamed h id

theorem Value.zero_renamed (v : Value) : v.zero ctx' = v.zero ctx := by
  cases v with
  | scalar v => rfl
  | message id => rfl
  | enum id => exact firstConstant_renamed h id

theorem repeatedType_renamed {v : Value} (hv : v.NoEntry ctx.graph) (repeated boxed : Bool) :
    Property.repeatedType ctx' v repeated boxed = Property.repeatedType ctx v repeated boxed := by
  simp only [Property.repeatedType, Value.type_renamed h hv]

variable {p : Property} (hp : ∀ v ∈ p.values, v.NoEntry ctx.graph)

include hp in
theorem Property.type_renamed : p.type ctx' = p.type ctx := by
  have helement : p.kind.element.NoEntry ctx.graph := hp _ List.mem_cons_self
  unfold Property.type
  generalize p.kind = kind at helement
  cases kind with
  | scalar v repeated => exact repeatedType_renamed h helement _ _
  | message id repeated => exact repeatedType_renamed h helement _ _
  | enum id repeated => exact repeatedType_renamed h helement _ _
  | extension extendee payload repeated => exact repeatedType_renamed h helement _ _
  | variant oneof payload => exact Value.type_renamed h helement false
  | map key v => simp only [Value.type_renamed h (v := v) helement]

theorem Property.defaultValue_renamed (p : Property) :
    p.defaultValue ctx' = p.defaultValue ctx := by
  simp only [Property.defaultValue, referEnum_renamed h]

theorem Property.initializer_renamed (p : Property) (constant : Option String) :
    p.initializer ctx' constant = p.initializer ctx constant := by
  simp only [Property.initializer, firstConstant_renamed h]

theorem Property.fallback_renamed (p : Property) (constant : Option String) :
    p.fallback ctx' constant = p.fallback ctx constant := by
  simp only [Property.fallback, Value.zero_renamed h]

theorem Shape.of_renamed {id : MessageId} (hid : (ctx.graph.message id).mapEntry = false) :
    Shape.of ctx' id = Shape.of ctx id := by
  rw [Shape.of, Shape.of, h.scope, h.names.message id hid]

end Texts

end Mapping

end ProtoJava
