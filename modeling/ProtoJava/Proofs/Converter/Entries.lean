import ProtoJava.Proofs.Converter.Conversions
import ProtoJava.Proofs.Converter.Mentions
import ProtoJava.Proofs.Mapping.Entries

/-! # Converters without map entries

The converter of a file does not depend on the names of map entries, and its annotations have the
paths of other messages.
-/

namespace ProtoJava.Converter

open Java
open Mapping
open Schema (MessageId EnumId)

theorem mem_convertedMessages_iff {s : Site} {i : Nat} : i ∈ s.convertedMessages ↔
    i < s.source.messages.length ∧ (s.source.message i).mapEntry = false := by
  simp only [Site.convertedMessages, List.mem_filter, List.mem_range, Bool.not_eq_true']

/-- A converter has the shapes of messages that are no map entries. -/
theorem shapes_beside {ctx : Context} {file : Nat} {shapes : List (MessageId × Shape)}
    (h : (Site.mk ctx file).shapes = .ok shapes) : ∀ p ∈ shapes,
      ∃ i < (ctx.graph.file file).messages.length,
        ((ctx.graph.file file).message i).mapEntry = false ∧ p.1 = ⟨file, i⟩ ∧
          Shape.of ctx ⟨file, i⟩ = .ok p.2 := by
  intro p hp
  obtain ⟨i, hi, hid, hshape⟩ := Site.shapes_ok h p hp
  obtain ⟨hi, hentry⟩ := mem_convertedMessages_iff.mp hi
  exact ⟨i, hi, hentry, hid, hshape⟩

section Texts

variable {ctx ctx' : Context} (h : ctx.RenamesEntries ctx') (file : Nat)

include h

theorem openEnums_renamed : (Site.mk ctx' file).openEnums = (Site.mk ctx file).openEnums := by
  rw [Site.openEnums, Site.openEnums, Site.source, Site.source, h.graph]

theorem accessorEnd_renamed (v : Value) :
    (Site.mk ctx' file).accessorEnd v = (Site.mk ctx file).accessorEnd v := by
  unfold Site.accessorEnd
  rw [openEnums_renamed h]

theorem protoClass_renamed (id : MessageId) :
    (Site.mk ctx' file).protoClass id = (Site.mk ctx file).protoClass id := by
  simp only [Site.protoClass, h.graph, Naming.Allocation.protoMessageClass, h.names.protoClass]

theorem protoEnumClass_renamed (id : EnumId) :
    (Site.mk ctx' file).protoEnumClass id = (Site.mk ctx file).protoEnumClass id := by
  simp only [Site.protoEnumClass, h.graph, Naming.Allocation.protoEnumClass, h.names.protoClass]

theorem call_renamed (id : MessageId) (method argument : String) :
    (Site.mk ctx' file).call id method argument = (Site.mk ctx file).call id method argument := by
  simp only [Site.call, h.options, h.names.converterClass]

theorem elementType_renamed (v : Value) :
    (Site.mk ctx' file).elementType v = (Site.mk ctx file).elementType v := by
  simp only [Site.elementType, openEnums_renamed h, protoClass_renamed h,
    protoEnumClass_renamed h]

variable {v : Value} (hv : v.NoEntry ctx.graph)

include hv

theorem decoded_renamed (expression : String) :
    (Site.mk ctx' file).decoded expression v = (Site.mk ctx file).decoded expression v := by
  cases v with
  | scalar v => cases v <;> rfl
  | message id => simp only [Site.decoded, h.names.message id hv, call_renamed h]
  | enum id => simp only [Site.decoded, openEnums_renamed h, referEnum_renamed h]

theorem encoded_renamed (expression : String) :
    (Site.mk ctx' file).encoded expression v = (Site.mk ctx file).encoded expression v := by
  cases v with
  | scalar v => cases v <;> rfl
  | message id => simp only [Site.encoded, h.names.message id hv, call_renamed h]
  | enum id => simp only [Site.encoded, openEnums_renamed h, protoEnumClass_renamed h]

end Texts

section Fields

variable {ctx ctx' : Context} (h : ctx.RenamesEntries ctx') (file : Nat) {m : Member} {v : Value}

include h

section Single

variable (hv : v.NoEntry ctx.graph)

include hv

theorem decodeSingle_renamed :
    (Site.mk ctx' file).decodeSingle m v = (Site.mk ctx file).decodeSingle m v := by
  simp only [Site.decodeSingle, accessorEnd_renamed h, decoded_renamed h file hv]

theorem decodeList_renamed :
    (Site.mk ctx' file).decodeList m v = (Site.mk ctx file).decodeList m v := by
  simp only [Site.decodeList, elementType_renamed h, accessorEnd_renamed h,
    decoded_renamed h file hv]

theorem decodeMap_renamed (key : Scalar) :
    (Site.mk ctx' file).decodeMap m key v = (Site.mk ctx file).decodeMap m key v := by
  simp only [Site.decodeMap, elementType_renamed h, accessorEnd_renamed h,
    decoded_renamed h file hv]

theorem encodeReference_renamed :
    (Site.mk ctx' file).encodeReference m v = (Site.mk ctx file).encodeReference m v := by
  simp only [Site.encodeReference, accessorEnd_renamed h, encoded_renamed h file hv]

theorem encodeList_renamed :
    (Site.mk ctx' file).encodeList m v = (Site.mk ctx file).encodeList m v := by
  simp only [Site.encodeList, Value.type_renamed h hv, accessorEnd_renamed h,
    encoded_renamed h file hv]

theorem encodeMap_renamed (key : Scalar) :
    (Site.mk ctx' file).encodeMap m key v = (Site.mk ctx file).encodeMap m key v := by
  simp only [Site.encodeMap, Value.type_renamed h hv, accessorEnd_renamed h,
    encoded_renamed h file hv]

end Single

theorem encodeScalar_renamed (v : Scalar) :
    (Site.mk ctx' file).encodeScalar m v = (Site.mk ctx file).encodeScalar m v := by
  have hv : (Value.scalar v).NoEntry ctx.graph := trivial
  simp only [Site.encodeScalar, encoded_renamed h file hv]

theorem decodeField_renamed (hm : m.Holds (Value.NoEntry ctx.graph)) :
    (Site.mk ctx' file).decodeField m = (Site.mk ctx file).decodeField m := by
  have helement : m.property.kind.element.NoEntry ctx.graph := hm _ List.mem_cons_self
  unfold Site.decodeField
  generalize m.property.kind = kind at helement
  match kind, helement with
  | .scalar v false, hv => exact decodeSingle_renamed h file (v := .scalar v) hv
  | .message id false, hv => exact decodeSingle_renamed h file hv
  | .enum id false, hv => exact decodeSingle_renamed h file (v := .enum id) hv
  | .scalar v true, hv => exact decodeList_renamed h file (v := .scalar v) hv
  | .message id true, hv => exact decodeList_renamed h file hv
  | .enum id true, hv => exact decodeList_renamed h file (v := .enum id) hv
  | .map key v, hv => exact decodeMap_renamed h file hv key
  | .variant _ _, _ => rfl
  | .extension _ _ _, _ => rfl

theorem encodeField_renamed (hm : m.Holds (Value.NoEntry ctx.graph)) :
    (Site.mk ctx' file).encodeField m = (Site.mk ctx file).encodeField m := by
  have helement : m.property.kind.element.NoEntry ctx.graph := hm _ List.mem_cons_self
  unfold Site.encodeField
  generalize m.property.kind = kind at helement
  match kind, helement with
  | .scalar v false, _ => exact encodeScalar_renamed h file v
  | .message id false, hv => exact encodeReference_renamed h file hv
  | .enum id false, hv => exact encodeReference_renamed h file (v := .enum id) hv
  | .scalar v true, hv => exact encodeList_renamed h file (v := .scalar v) hv
  | .message id true, hv => exact encodeList_renamed h file hv
  | .enum id true, hv => exact encodeList_renamed h file (v := .enum id) hv
  | .map key v, hv => exact encodeMap_renamed h file hv key
  | .variant _ _, _ => rfl
  | .extension _ _ _, _ => rfl

variable {x : Variant}

theorem decodeArm_renamed (hx : x.member.Holds (Value.NoEntry ctx.graph)) :
    (Site.mk ctx' file).decodeArm x = (Site.mk ctx file).decodeArm x := by
  unfold Site.decodeArm
  split
  · rfl
  · next hvalue =>
    simp only [accessorEnd_renamed h, decoded_renamed h file (hx.value hvalue)]

theorem encodeArm_renamed (hx : x.member.Holds (Value.NoEntry ctx.graph)) :
    (Site.mk ctx' file).encodeArm x = (Site.mk ctx file).encodeArm x := by
  unfold Site.encodeArm
  split
  · rfl
  · next hvalue =>
    simp only [accessorEnd_renamed h, encoded_renamed h file (hx.value hvalue)]

theorem decodeItem_renamed {item : Item} (hi : item.Holds (Value.NoEntry ctx.graph)) :
    (Site.mk ctx' file).decodeItem item = (Site.mk ctx file).decodeItem item := by
  cases item with
  | field m => exact decodeField_renamed h file hi
  | union u =>
    simp only [Site.decodeItem, Site.decodeUnion,
      mapM_congr fun x hx => decodeArm_renamed h file (hi x hx)]

theorem encodeItem_renamed {item : Item} (hi : item.Holds (Value.NoEntry ctx.graph)) :
    (Site.mk ctx' file).encodeItem item = (Site.mk ctx file).encodeItem item := by
  cases item with
  | field m => exact encodeField_renamed h file hi
  | union u =>
    simp only [Site.encodeItem, Site.encodeUnion,
      mapM_congr fun x hx => encodeArm_renamed h file (hi x hx)]

end Fields

section Methods

variable {ctx ctx' : Context} (h : ctx.RenamesEntries ctx') (file : Nat)

include h

theorem messageMethods_renamed {id : MessageId} {shape : Shape}
    (hid : (ctx.graph.message id).mapEntry = false)
    (hs : shape.Holds (Value.NoEntry ctx.graph)) :
    (Site.mk ctx' file).messageMethods id shape = (Site.mk ctx file).messageMethods id shape := by
  have hbean : (Site.mk ctx' file).beanClass id = (Site.mk ctx file).beanClass id :=
    referMessage_renamed h hid
  have hparse : (Site.mk ctx' file).parseMethod id = (Site.mk ctx file).parseMethod id := by
    simp only [Site.parseMethod, hbean, protoClass_renamed h, h.names.message id hid]
  have hdecode : (Site.mk ctx' file).decodeMethod id shape =
      (Site.mk ctx file).decodeMethod id shape := by
    simp only [Site.decodeMethod, hbean, protoClass_renamed h,
      mapM_congr fun item hi => decodeItem_renamed h file (hs.items item hi)]
  have hencode : (Site.mk ctx' file).encodeMethod id shape =
      (Site.mk ctx file).encodeMethod id shape := by
    simp only [Site.encodeMethod, hbean, protoClass_renamed h,
      mapM_congr fun item hi => encodeItem_renamed h file (hs.items item hi)]
  have hbytes : (Site.mk ctx' file).bytesMethod id = (Site.mk ctx file).bytesMethod id := by
    simp only [Site.bytesMethod, hbean, h.names.message id hid]
  simp only [Site.messageMethods, hparse, hdecode, hencode, hbytes]

theorem classSteps_renamed {shapes : List (MessageId × Shape)}
    (hs : ∀ p ∈ shapes, (ctx.graph.message p.1).mapEntry = false ∧
      p.2.Holds (Value.NoEntry ctx.graph)) (name : String) :
    (Site.mk ctx' file).classSteps name shapes = (Site.mk ctx file).classSteps name shapes := by
  simp only [Site.classSteps,
    mapM_congr fun p hp => messageMethods_renamed h file (hs p hp).1 (hs p hp).2]

theorem convertedMessages_renamed :
    (Site.mk ctx' file).convertedMessages = (Site.mk ctx file).convertedMessages := by
  simp only [Site.convertedMessages, Site.source, h.graph]

theorem shapes_renamed : (Site.mk ctx' file).shapes = (Site.mk ctx file).shapes := by
  rw [Site.shapes, Site.shapes, convertedMessages_renamed h]
  refine mapM_congr fun i hi => ?_
  have hentry : (ctx.graph.message ⟨file, i⟩).mapEntry = false :=
    (mem_convertedMessages_iff.mp hi).2
  simp only [Shape.of_renamed h hentry]

/-- The converter of a file is the same whatever names map entries have. -/
theorem converter_renamed (hq : ∀ i, ∀ f ∈ ((ctx.graph.file file).message i).fields, ∀ p,
      ctx.classify (some ((ctx.graph.file file).message i)) f = .ok p →
        ∀ v ∈ p.values, v.NoEntry ctx.graph) : converter ctx' file = converter ctx file := by
  rw [converter_eq_shapes, converter_eq_shapes, convertedMessages_renamed h, shapes_renamed h]
  split
  · rfl
  · cases hshapes : (Site.mk ctx file).shapes with
    | error e => simp only [Except.map]
    | ok shapes =>
      have hs : ∀ p ∈ shapes, (ctx.graph.message p.1).mapEntry = false ∧
          p.2.Holds (Value.NoEntry ctx.graph) := by
        intro p hp
        obtain ⟨i, -, hentry, hid, hshape⟩ := shapes_beside hshapes p hp
        rw [hid]
        exact ⟨hentry, Shape.of_holds hshape (hq i)⟩
      simp only [Except.map, converterOf, h.names.converterClass, h.options,
        classSteps_renamed h file hs, Site.source, h.graph]

end Methods

section Labels

variable {steps : List Step}

theorem marked_moves {value : String → String → Prop} {element : String → Prop}
    {source opening closing : String} {t : Transfer} {asked : Prop} {test : String}
    (h : Tested asked test (Moves value element source opening closing t) steps) :
    Marked steps [] := by
  have hb : ∀ header inner, Marked inner [] →
      Marked [.block (header ++ " \x7b") "\x7d" inner] [] := fun header inner hi => hi.braced header
  exact h.of_braced (fun inner hi => hi.of_line (fun e => .line _) hb) hb

theorem marked_switchOver (selector : String) (arms : List Arm) :
    Marked [switchOver selector arms] [] := by
  refine .braced _ (.lines fun s hs => ?_)
  simp only [List.mem_append, List.mem_flatMap, List.mem_cons, List.mem_map, List.not_mem_nil,
    or_false] at hs
  rcases hs with ⟨arm, -, (rfl | ⟨text, -, rfl⟩) | rfl⟩ | rfl | rfl
  all_goals exact ⟨_, rfl⟩

/-- No statement of a direction is annotated. -/
def Direction.Unmarked (d : Direction) : Prop :=
  ∀ {n nullable t v steps}, d.moves n nullable t v steps → Marked steps []

theorem Direction.ForItem.marked {d : Direction} (hd : d.Unmarked) {item : Item}
    (h : d.ForItem item steps) : Marked steps [] := by
  cases item with
  | field m =>
    change d.ForField m steps at h
    unfold Direction.ForField at h
    split at h
    · exact hd h
    · exact h ▸ .nil
  | union u =>
    obtain ⟨arms, -, rfl⟩ := h
    exact marked_switchOver _ _

theorem marked_items {d : Direction} (hd : d.Unmarked) {items : List Item}
    {lists : List (List Step)} (h : List.Forall₂ d.ForItem items lists) :
    Marked lists.flatten [] :=
  .flatten_nil (h.imp fun _ _ hi => hi.marked hd)

variable (s : Site) (id : MessageId) (shape : Shape)

theorem decodeMethod_marked : Yields AnyImports (s.decodeMethod id shape) fun steps =>
    Marked steps [(shape.message.path, shape.names.converter.decode)] := by
  refine (Yields.trivial _).bind fun bean _ => (Yields.trivial _).bind fun proto _ => ?_
  refine (Yields.mapM fun item _ => decodeItem_item s item).bind fun items hitems => .pure ?_
  have hitems := marked_items marked_moves hitems
  have hlead := ((Marked.line "return null;").braced "if (pb == null)").cons
    (Marked.line (bean ++ " bean = new " ++ bean ++ "();"))
  exact Marked.declared _ _ _ _ ((hlead.append hitems).append (.line _))

theorem encodeMethod_marked : Yields AnyImports (s.encodeMethod id shape) fun step =>
    Marked [step] [] := by
  refine (Yields.trivial _).bind fun bean _ => (Yields.trivial _).bind fun proto _ => ?_
  refine (Yields.mapM fun item _ => encodeItem_item s item).bind fun items hitems => .pure ?_
  have hitems := marked_items marked_moves hitems
  have hlead := ((Marked.line "return null;").braced "if (bean == null)").cons
    (Marked.line (proto ++ ".Builder builder = " ++ proto ++ ".newBuilder();"))
  exact ((hlead.append hitems).append (.line _)).braced _

/-- Of the methods of a message the one that makes a bean of it is annotated. -/
theorem messageMethods_marked : Yields AnyImports (s.messageMethods id shape) fun steps =>
    Marked steps [(shape.message.path, shape.names.converter.decode)] := by
  have hparse : Yields AnyImports (s.parseMethod id) fun step => Marked [step] [] := by
    refine (Yields.trivial _).bind fun bean _ => ?_
    refine (Yields.trivial _).bind fun proto _ => ?_
    refine (Yields.trivial _).bind fun parseError _ => .pure ?_
    exact (((Marked.line _).block _ _).cons (((Marked.line _).cons (.line _)).body _)).braced _
  have hbytes : Yields AnyImports (s.bytesMethod id) fun step => Marked [step] [] :=
    (Yields.trivial _).bind fun bean _ => .pure ((Marked.line _).braced _)
  have hblank : ∀ step, Marked [step] [] → Marked [step, .blank] [] := fun _ h => h.cons .blank
  refine Yields.optional (Q := fun steps => Marked steps []) hparse hblank .nil
    (fun parse hparse => ?_) _
  refine (decodeMethod_marked s id shape).bind fun decode hdecode => ?_
  refine (encodeMethod_marked s id shape).bind fun encode hencode => ?_
  refine Yields.optional (Q := fun steps => Marked steps []) hbytes hblank .nil
    (fun bytes hbytes => .pure ?_) _
  exact ((hparse.append hdecode).append (Marked.blank.cons (hencode.cons .blank))).append hbytes

/-- A converter annotates its class and, for each message, the method that makes a bean of it. -/
theorem classSteps_marked (name : String) (shapes : List (MessageId × Shape)) :
    Yields AnyImports (s.classSteps name shapes) fun steps => Marked steps (([], name) ::
      shapes.flatMap fun p => [(p.2.message.path, p.2.names.converter.decode)]) :=
  (Yields.mapM fun p _ => messageMethods_marked s p.1 p.2).bind fun _ hmethods =>
    .pure (Marked.declared _ _ _ _ (Marked.flatten hmethods))

theorem converterOf_labels (shapes : List (MessageId × Shape)) : (converterOf s shapes).labels =
    (([], (s.names.converterClass s.options.converterPackage s.file).simple) ::
      shapes.flatMap fun p => [(p.2.message.path, p.2.names.converter.decode)]).map
        fun l => (l.1, some l.2) := by
  let class_ := s.names.converterClass s.options.converterPackage s.file
  let imports : Imports := { package := class_.package, own := [class_.simple] }
  obtain ⟨hmarked, -⟩ := classSteps_marked s class_.simple shapes imports trivial
  rw [← hmarked.labels]
  exact Artifact.assemble_labels _ _ _ hmarked.sound

end Labels

/-- What a converter annotates is no part of a map entry. -/
theorem converter_beside {ctx : Context} {file : Nat} {a : Artifact}
    (h : converter ctx file = .ok (some a)) :
    ∀ l ∈ a.labels, (ctx.graph.file file).Beside l.1 := by
  rw [converter_eq_shapes] at h
  split at h
  · exact nomatch h
  · obtain ⟨shapes, hshapes, h⟩ := map_eq_ok_iff.mp h
    obtain rfl := Option.some.inj h
    rw [converterOf_labels, List.forall_mem_map, List.forall_mem_cons]
    refine ⟨.file, fun l hl => ?_⟩
    obtain ⟨p, hp, hl⟩ := List.mem_flatMap.mp hl
    obtain ⟨i, hi, hentry, -, hshape⟩ := shapes_beside hshapes p hp
    rw [List.mem_singleton.mp hl, Shape.of_message hshape]
    exact .message hi hentry List.mem_cons_self

end ProtoJava.Converter
