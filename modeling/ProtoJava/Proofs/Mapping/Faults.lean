import ProtoJava.Compile
import ProtoJava.Proofs.Schema.References

/-! # Faults of fields

Once the references of a graph are known to be found, two things can be wrong with a field: its
map entry has no key or no value, or its enum has no value of the name its default gives. Sources
fail for no other reason.
-/

namespace ProtoJava.Mapping

open Schema (Graph Message Field MessageId EnumId TypeRef FieldType)

/-- The first field numbered 1 is none of a scalar type, or no field is numbered 2. -/
def EntryMalformed (entry : Message) : Prop :=
  (∀ key ∈ entry.fields.find? (·.number = 1), key.type.isNamed) ∨
    ∀ value ∈ entry.fields, value.number ≠ 2

/-- What is wrong with a field that stands in `m`, or in a file itself, and how it is reported. -/
inductive Fault (g : Graph) (m : Option Message) (f : Field) : Error → Prop
  | malformedEntry {entry : MessageId} :
      f.isRepeated → f.type.isMessage → f.extendee = none → m.bind (·.union? f) = none →
      g.FindsMessage f.typeName entry → (g.message entry).mapEntry →
      EntryMalformed (g.message entry) →
      Fault g m f (.malformedMapEntry (g.message entry).fullName)
  | unknownDefault {id : EnumId} {text : String} :
      f.isRepeated = false → f.type = .enum → f.defaultValue = some text →
      g.FindsEnum f.typeName id → (∀ value ∈ (g.enumType id).values, value.name ≠ text) →
      Fault g m f (.unknownEnumDefault f.name text)

/-- The scope of a graph. -/
abbrev scopeOf (g : Graph) : Scope :=
  ⟨g, g.index⟩

/-- The declared type of a value. -/
def Value.ref? : Value → Option TypeRef
  | .scalar _ => none
  | .message id => some (.message id)
  | .enum id => some (.enum id)

section Values

theorem Scalar.ofType?_eq_none_iff {t : FieldType} : Scalar.ofType? t = none ↔ t.isNamed := by
  cases t <;> simp [Scalar.ofType?, FieldType.isNamed]

theorem Scalar.ofType?_of_isMessage {t : FieldType} (h : t.isMessage) :
    Scalar.ofType? t = none := by
  cases t <;> simp_all [Scalar.ofType?, FieldType.isMessage]

variable {raws : List Descriptor.File} {g : Graph} {f : Field} {v : Value}

theorem value_of_scalar {scalar : Scalar} (ht : Scalar.ofType? f.type = some scalar) :
    (scopeOf g).value f = .ok v ↔ v = .scalar scalar := by
  rw [Scope.value, ht]
  constructor
  · exact fun h => (Except.ok.inj h).symm
  · exact fun h => h ▸ rfl

theorem value_of_message (hg : Graph.build raws = .ok g) (ht : f.type.isMessage) :
    (scopeOf g).value f = .ok v ↔ ∃ id, g.FindsMessage f.typeName id ∧ v = .message id := by
  rw [Scope.value, Scalar.ofType?_of_isMessage ht]
  simp only [ht, if_true, map_eq_ok_iff, ofSchema_eq_ok_iff, Graph.resolve_message hg]
  exact exists_congr fun id => and_congr_right' eq_comm

theorem value_of_enum (hg : Graph.build raws = .ok g) (ht : f.type = .enum) :
    (scopeOf g).value f = .ok v ↔ ∃ id, g.FindsEnum f.typeName id ∧ v = .enum id := by
  rw [Scope.value, ht]
  simp only [Scalar.ofType?, FieldType.isMessage, Bool.false_eq_true, if_false, map_eq_ok_iff,
    ofSchema_eq_ok_iff, Graph.resolve_enum hg]
  exact exists_congr fun id => and_congr_right' eq_comm

/-- A type is that of scalars, of messages or of enums. -/
theorem Scalar.ofType?_cases (t : FieldType) :
    (∃ scalar, Scalar.ofType? t = some scalar) ∨ t.isMessage ∨ t = .enum := by
  cases t <;> simp [Scalar.ofType?, FieldType.isMessage]

theorem value_eq_message_iff (hg : Graph.build raws = .ok g) {id : MessageId} :
    (scopeOf g).value f = .ok (.message id) ↔
      f.type.isMessage ∧ g.FindsMessage f.typeName id := by
  rcases Scalar.ofType?_cases f.type with ⟨scalar, ht⟩ | ht | ht
  · have hm : ¬ f.type.isMessage := fun h =>
      nomatch ht.symm.trans (Scalar.ofType?_of_isMessage h)
    simp [value_of_scalar ht, hm]
  · simp [value_of_message hg ht, ht]
  · simp [value_of_enum hg ht, ht, FieldType.isMessage]

theorem value_eq_enum_iff (hg : Graph.build raws = .ok g) {id : EnumId} :
    (scopeOf g).value f = .ok (.enum id) ↔ f.type = .enum ∧ g.FindsEnum f.typeName id := by
  rcases Scalar.ofType?_cases f.type with ⟨scalar, ht⟩ | ht | ht
  · have he : f.type ≠ .enum := by
      intro he
      rw [he] at ht
      exact nomatch ht
    simp [value_of_scalar ht, he]
  · have he : f.type ≠ .enum := by
      intro he
      rw [he] at ht
      exact nomatch ht
    simp [value_of_message hg ht, he]
  · simp [value_of_enum hg ht, ht]

/-- The type of a value that a field has is declared. -/
theorem has_of_value (hg : Graph.build raws = .ok g) (hv : (scopeOf g).value f = .ok v) :
    ∀ ref ∈ v.ref?, g.Has ref := by
  intro ref href
  cases v with
  | scalar scalar => exact nomatch href
  | message id =>
    obtain rfl := Option.some.inj href
    obtain ⟨-, hid⟩ := (value_eq_message_iff hg).mp hv
    exact ⟨hid.file_lt, hid.lt⟩
  | enum id =>
    obtain rfl := Option.some.inj href
    obtain ⟨-, hid⟩ := (value_eq_enum_iff hg).mp hv
    exact ⟨hid.file_lt, hid.lt⟩

/-- A field whose references are found has a value. -/
theorem exists_value (hg : Graph.build raws = .ok g) (hf : g.Refers f) :
    ∃ v, (scopeOf g).value f = .ok v := by
  rcases Scalar.ofType?_cases f.type with ⟨scalar, ht⟩ | ht | ht
  · exact ⟨_, (value_of_scalar ht).mpr rfl⟩
  · obtain ⟨id, hid⟩ := hf.message ht
    exact ⟨_, (value_of_message hg ht).mpr ⟨id, hid, rfl⟩⟩
  · obtain ⟨id, hid⟩ := hf.enum ht
    exact ⟨_, (value_of_enum hg ht).mpr ⟨id, hid, rfl⟩⟩

end Values

section Classify

variable {raws : List Descriptor.File} {g : Graph} {m : Option Message} {f : Field} {v : Value}
  {e : Error}

theorem key_eq_none_iff {fields : List Field} :
    ((fields.find? (·.number = 1)).bind fun x => Scalar.ofType? x.type) = none ↔
      ∀ key ∈ fields.find? (·.number = 1), key.type.isNamed := by
  cases fields.find? (·.number = 1) with
  | none => simp
  | some key => simp [Scalar.ofType?_eq_none_iff]

/-- The map of an entry whose fields have values is there unless the entry is malformed. -/
theorem mapOf_eq_error_iff (hg : Graph.build raws = .ok g) {entry : MessageId}
    (hentry : ∀ x ∈ (g.message entry).fields, g.Refers x) :
    (scopeOf g).mapOf entry = .error e ↔
      EntryMalformed (g.message entry) ∧ e = .malformedMapEntry (g.message entry).fullName := by
  have hvalue : (g.message entry).fields.find? (·.number = 2) = none ↔
      ∀ value ∈ (g.message entry).fields, value.number ≠ 2 := by
    simp [List.find?_eq_none]
  rw [EntryMalformed, ← key_eq_none_iff, ← hvalue]
  unfold Scope.mapOf
  dsimp only
  split
  · next key f hkey hf =>
    obtain ⟨v, hv⟩ := exists_value hg (hentry f (List.mem_of_find?_eq_some hf))
    simp [hkey, hf, hv, Except.map]
  · next hnot =>
    have hnone : ((g.message entry).fields.find? (·.number = 1)).bind
          (fun x => Scalar.ofType? x.type) = none ∨
        (g.message entry).fields.find? (·.number = 2) = none := by
      rw [or_iff_not_imp_left]
      intro hkey
      obtain ⟨key, hkey⟩ := Option.ne_none_iff_exists'.mp hkey
      by_contra hf
      obtain ⟨f, hf⟩ := Option.ne_none_iff_exists'.mp hf
      exact hnot key f hkey hf
    constructor
    · intro h
      exact ⟨hnone, (Except.error.inj h).symm⟩
    · rintro ⟨-, rfl⟩
      rfl

variable (hg : Graph.build raws = .ok g) (hr : ∀ m f, g.Declares m f → g.Refers f)

include hg hr

theorem plainKind_eq_error_iff {repeated : Bool} :
    (scopeOf g).plainKind repeated v = .error e ↔ ∃ entry, v = .message entry ∧ repeated ∧
      (g.message entry).mapEntry ∧ EntryMalformed (g.message entry) ∧
      e = .malformedMapEntry (g.message entry).fullName := by
  cases v with
  | scalar scalar => simp [Scope.plainKind]
  | enum id => simp [Scope.plainKind]
  | message id =>
    have hentry : ∀ f ∈ (g.message id).fields, g.Refers f := fun f hf =>
      hr _ f (Graph.declares_field hf)
    have hmap := mapOf_eq_error_iff (e := e) hg hentry
    rw [Scope.plainKind]
    split
    · next h =>
      rw [hmap]
      simp only [Bool.and_eq_true] at h
      simp [h]
    · next h =>
      simp only [Bool.and_eq_true, not_and] at h
      constructor
      · exact fun h => nomatch h
      · rintro ⟨entry, hv, hrep, hentry, -⟩
        obtain rfl := Value.message.inj hv
        exact absurd hentry (h hrep)

/-- The kind of a field is found, unless it is that of a map with a malformed entry. -/
theorem kind_eq_error_iff (hf : g.Refers f) :
    (scopeOf g).kind m f v = .error e ↔ f.extendee = none ∧ m.bind (·.union? f) = none ∧
      ∃ entry, v = .message entry ∧ f.isRepeated ∧ (g.message entry).mapEntry ∧
        EntryMalformed (g.message entry) ∧
        e = .malformedMapEntry (g.message entry).fullName := by
  unfold Scope.kind
  cases hx : f.extendee with
  | some name =>
    obtain ⟨id, hid⟩ := hf.extendee name hx
    simp [(Graph.resolve_message hg).mpr hid, ofSchema, Except.map]
  | none =>
    cases m.bind (·.union? f) with
    | some o => simp
    | none => simp [plainKind_eq_error_iff hg hr]

omit hg hr in
/-- The default of a field is found, unless it names no value of an enum. -/
theorem default_eq_error_iff :
    (scopeOf g).default f v = .error e ↔ f.isRepeated = false ∧ ∃ id text, v = .enum id ∧
      f.defaultValue = some text ∧ (∀ value ∈ (g.enumType id).values, value.name ≠ text) ∧
      e = .unknownEnumDefault f.name text := by
  unfold Scope.default
  cases hrep : f.isRepeated with
  | true => simp
  | false =>
    cases hd : f.defaultValue with
    | none => simp
    | some text =>
      cases v with
      | message id => simp
      | scalar scalar => simp
      | enum id =>
        have hvalues : (g.enumType id).valueNamed? text = none ↔
            ∀ value ∈ (g.enumType id).values, value.name ≠ text := by
          simp [Schema.EnumType.valueNamed?, List.find?_eq_none]
        cases hv : (g.enumType id).valueNamed? text with
        | some value =>
          have hnot := mt hvalues.mpr (by simp [hv])
          simp only [Bool.false_eq_true, if_false, hv, reduceCtorEq, true_and, false_iff]
          rintro ⟨id', text', hid, htext, hall, -⟩
          obtain rfl := Value.enum.inj hid
          obtain rfl := Option.some.inj htext
          exact hnot hall
        | none =>
          simp only [Bool.false_eq_true, if_false, hv, true_and]
          constructor
          · exact fun h => ⟨id, text, rfl, rfl, hvalues.mp hv, (Except.error.inj h).symm⟩
          · rintro ⟨id', text', hid, htext, -, rfl⟩
            obtain rfl := Option.some.inj htext
            rfl

/-- What a field becomes is found unless one of the two faults is there. -/
theorem classify_eq_error_iff (hf : g.Refers f) :
    (scopeOf g).classify m f = .error e ↔ Fault g m f e := by
  obtain ⟨v, hv⟩ := exists_value hg hf
  have hstep : (scopeOf g).classify m f = .error e ↔ (scopeOf g).kind m f v = .error e ∨
      ∃ kind, (scopeOf g).kind m f v = .ok kind ∧ (scopeOf g).default f v = .error e := by
    simp only [Scope.classify, bind_eq_error_iff, hv, reduceCtorEq, false_or, Except.ok.injEq,
      exists_eq_left']
    constructor
    · rintro (h | ⟨kind, hk, h | ⟨_, _, h⟩⟩)
      · exact Or.inl h
      · exact Or.inr ⟨kind, hk, h⟩
      · exact nomatch h
    · rintro (h | ⟨kind, hk, h⟩)
      · exact Or.inl h
      · exact Or.inr ⟨kind, hk, Or.inl h⟩
  rw [hstep]
  constructor
  · rintro (h | ⟨kind, -, h⟩)
    · obtain ⟨hx, hu, entry, rfl, hrep, hentry, hmal, rfl⟩ := (kind_eq_error_iff hg hr hf).mp h
      obtain ⟨ht, hfound⟩ := (value_eq_message_iff hg).mp hv
      exact .malformedEntry hrep ht hx hu hfound hentry hmal
    · obtain ⟨hrep, id, text, rfl, hd, hall, rfl⟩ := default_eq_error_iff.mp h
      obtain ⟨ht, hfound⟩ := (value_eq_enum_iff hg).mp hv
      exact .unknownDefault hrep ht hd hfound hall
  · intro h
    cases h with
    | @malformedEntry entry hrep ht hx hu hfound hentry hmal =>
      have hv' := hv.symm.trans ((value_eq_message_iff hg).mpr ⟨ht, hfound⟩)
      exact Or.inl ((kind_eq_error_iff hg hr hf).mpr
        ⟨hx, hu, entry, Except.ok.inj hv', hrep, hentry, hmal, rfl⟩)
    | @unknownDefault id text hrep ht hd hfound hall =>
      have hv' := hv.symm.trans ((value_eq_enum_iff hg).mpr ⟨ht, hfound⟩)
      obtain rfl := Except.ok.inj hv'
      have hkind : ∃ kind, (scopeOf g).kind m f (.enum id) = .ok kind := by
        apply exists_eq_ok_iff.mpr
        intro e he
        obtain ⟨-, -, entry, hentry, -⟩ := (kind_eq_error_iff hg hr hf).mp he
        exact nomatch hentry
      obtain ⟨kind, hk⟩ := hkind
      exact Or.inr ⟨kind, hk, default_eq_error_iff.mpr ⟨hrep, id, text, rfl, hd, hall, rfl⟩⟩

end Classify

section Sources

/-- A field of a graph has a fault that is reported as the error. -/
def Faulty (g : Graph) (e : Error) : Prop :=
  ∃ m f, g.Declares m f ∧ Fault g m f e

variable {raws : List Descriptor.File} {g : Graph} {ctx : Context} {e : Error}
  (hg : Graph.build raws = .ok g) (hr : ∀ m f, g.Declares m f → g.Refers f)
  (hctx : ctx.toScope = scopeOf g)

include hg hr hctx

theorem faulty_of_classify {m : Option Message} {f : Field} (hf : g.Declares m f)
    (h : ctx.classify m f = .error e) : Faulty g e := by
  rw [hctx] at h
  exact ⟨m, f, hf, (classify_eq_error_iff hg hr (hr m f hf)).mp h⟩

theorem faulty_of_shape {id : MessageId} (h : Shape.of ctx id = .error e) : Faulty g e := by
  have hgraph : ctx.graph = g := congrArg Scope.graph hctx
  simp only [Shape.of, bind_eq_error_iff, mapM_eq_error_iff, hgraph] at h
  rcases h with ⟨before, f, after, hl, -, h⟩ | ⟨_, _, h⟩
  · exact faulty_of_classify hg hr hctx (Graph.declares_field (by rw [hl]; simp)) h
  · exact nomatch h

theorem faulty_of_extensions {m : Option Message} {fields : List Field}
    {names : List Naming.ExtensionNames} (hm : ∀ f ∈ fields, g.Declares m f)
    (h : Bean.extensionsOf ctx m fields names = .error e) : Faulty g e := by
  simp only [Bean.extensionsOf, bind_eq_error_iff, mapM_eq_error_iff] at h
  rcases h with ⟨before, ⟨f, n⟩, after, hl, -, h⟩ | ⟨_, _, h⟩
  · have hmem : f ∈ fields := (List.of_mem_zip (hl ▸ by simp : (f, n) ∈ fields.zip names)).1
    simp only [Bean.Extension.of, bind_eq_error_iff] at h
    rcases h with h | ⟨p, _, h⟩
    · exact faulty_of_classify hg hr hctx (hm f hmem) h
    · split at h <;> exact nomatch h
  · exact nomatch h

/-- A message fails with its fields, its extensions or what is nested in it, which stands later. -/
theorem faulty_of_outline {file i : Nat} (h : Bean.Outline.of ctx file i = .error e) :
    Faulty g e := by
  have hgraph : ctx.graph = g := congrArg Scope.graph hctx
  induction hn : (ctx.graph.file file).messages.length - i using Nat.strongRecOn
    generalizing i with
  | ind n ih =>
    rw [Bean.Outline.of] at h
    simp only [bind_eq_error_iff, mapM_eq_error_iff] at h
    rcases h with h | ⟨shape, hs, h | ⟨_, _, ⟨before, ⟨k, hk⟩, after, -, -, h⟩ | ⟨_, _, h⟩⟩⟩
    · exact faulty_of_shape hg hr hctx h
    · have hmessage : shape.message = g.message ⟨file, i⟩ := by
        simp only [Shape.of, bind_eq_ok_iff, pure_eq_ok_iff] at hs
        obtain ⟨ps, -, rfl⟩ := hs
        rw [← hgraph]
        rfl
      rw [hmessage] at h
      exact faulty_of_extensions hg hr hctx (fun f hf => Graph.declares_extension hf) h
    · have hlt := Bean.lt_of_mem_nestedClasses hk
      exact ih ((ctx.graph.file file).messages.length - k) (by omega) h rfl
    · exact nomatch h

theorem faulty_of_beans {file : Nat} (h : Bean.beans ctx file = .error e) : Faulty g e := by
  have hgraph : ctx.graph = g := congrArg Scope.graph hctx
  simp only [Bean.beans, Bean.Contents.of, bind_eq_error_iff, mapM_eq_error_iff] at h
  rcases h with (⟨before, i, after, -, -, h⟩ | ⟨_, _, h | ⟨_, _, h⟩⟩) | ⟨c, -, h⟩
  · exact faulty_of_outline hg hr hctx h
  · rw [hgraph] at h
    exact faulty_of_extensions hg hr hctx (fun f hf => Graph.declares_fileExtension hf) h
  · exact nomatch h
  · split at h <;> exact nomatch h

theorem faulty_of_converter {file : Nat} (h : Converter.converter ctx file = .error e) :
    Faulty g e := by
  unfold Converter.converter at h
  dsimp only at h
  split at h
  · exact nomatch h
  · simp only [bind_eq_error_iff, mapM_eq_error_iff] at h
    rcases h with ⟨before, i, after, -, -, h | ⟨_, _, h⟩⟩ | ⟨_, _, h⟩
    · exact faulty_of_shape hg hr hctx h
    · exact nomatch h
    · exact nomatch h

end Sources

/-- The check of a graph passes just if all references are found. Then what a field becomes is
found unless one of the two faults is there, and sources fail with such a fault only. -/
theorem classify_faults {raws : List Descriptor.File} {g : Graph}
    (hg : Graph.build raws = .ok g) :
    (g.checkReferences g.index = .ok () ↔ ∀ m f, g.Declares m f → g.Refers f) ∧
    (g.checkReferences g.index = .ok () →
      (∀ m f, g.Declares m f →
        (∀ e, (scopeOf g).classify m f = .error e ↔ Fault g m f e) ∧
        ((∃ p, (scopeOf g).classify m f = .ok p) ↔ ∀ e, ¬ Fault g m f e)) ∧
      ∀ ctx : Context, ctx.toScope = scopeOf g → ∀ file e,
        Bean.beans ctx file = .error e ∨ Converter.converter ctx file = .error e →
          Faulty g e) := by
  refine ⟨Graph.checkReferences_iff hg, fun hcheck => ?_⟩
  have hr := (Graph.checkReferences_iff hg).mp hcheck
  constructor
  · intro m f hf
    have herror : ∀ e, (scopeOf g).classify m f = .error e ↔ Fault g m f e :=
      fun e => classify_eq_error_iff hg hr (hr m f hf)
    refine ⟨herror, ?_⟩
    rw [exists_eq_ok_iff]
    exact forall_congr' fun e => not_congr (herror e)
  · rintro ctx hctx file e (h | h)
    · exact faulty_of_beans hg hr hctx h
    · exact faulty_of_converter hg hr hctx h

/-- A file with a map without values, a default that names no value, and a map and a default that
are right. -/
def catalog : Descriptor.File where
  name := "catalog.proto"
  messages := [{
    name := "Item"
    fields := [
      { name := "tags", number := 1, type := 11, label := 3, typeName := ".Item.Tag" },
      { name := "gone", number := 2, type := 11, label := 3, typeName := ".Item.Gone" },
      { name := "state", number := 3, type := 14, typeName := ".Item.State",
        defaultValue := some "OPEN" },
      { name := "other", number := 4, type := 14, typeName := ".Item.State",
        defaultValue := some "LOST" }]
    nested := [
      { name := "Tag"
        fields := [
          { name := "key", number := 1, type := 9 },
          { name := "value", number := 2, type := 11, typeName := ".Item" }]
        mapEntry := true },
      { name := "Gone", fields := [{ name := "key", number := 1, type := 9 }], mapEntry := true }]
    enums := [{ name := "State", values := [{ name := "OPEN" }] }] }]

theorem classify_faults_catalog :
    ∃ g m tags gone state other ctx, Graph.build [catalog] = .ok g ∧
      g.checkReferences g.index = .ok () ∧ m.fields = [tags, gone, state, other] ∧
      (∀ e, ¬ Fault g (some m) tags e) ∧
      Fault g (some m) gone (.malformedMapEntry ".Item.Gone") ∧
      (∀ e, ¬ Fault g (some m) state e) ∧
      Fault g (some m) other (.unknownEnumDefault "other" "LOST") ∧
      Converter.converter ctx 0 = .error (.malformedMapEntry ".Item.Gone") ∧
      Faulty g (.malformedMapEntry ".Item.Gone") := by
  let g := (Graph.build [catalog]).toOption.getD default
  have hg : Graph.build [catalog] = .ok g := rfl
  have hcheck : g.checkReferences g.index = .ok () := by decide +kernel
  let m := g.message ⟨0, 0⟩
  have hm : m.fields = [m.fields[0], m.fields[1], m.fields[2], m.fields[3]] := rfl
  have hdeclares : ∀ f ∈ m.fields, g.Declares (some m) f := fun f hf => Graph.declares_field hf
  have hclassify := fun f hf =>
    ((classify_faults hg).2 hcheck).1 (some m) f (hdeclares f hf)
  let ctx := Context.prepare ⟨"bean", "conv", .type, false⟩ g [0]
  have hconverter : Converter.converter ctx 0 = .error (.malformedMapEntry ".Item.Gone") := by
    decide +kernel
  refine ⟨g, m, _, _, _, _, ctx, hg, hcheck, hm, ?_, ?_, ?_, ?_, hconverter, ?_⟩
  · exact (hclassify _ (by simp)).2.mp (exists_eq_ok (by decide +kernel))
  · exact ((hclassify _ (by simp)).1 _).mp (by decide +kernel)
  · exact (hclassify _ (by simp)).2.mp (exists_eq_ok (by decide +kernel))
  · exact ((hclassify _ (by simp)).1 _).mp (by decide +kernel)
  · exact ((classify_faults hg).2 hcheck).2 ctx rfl 0 _ (Or.inr hconverter)

end ProtoJava.Mapping
