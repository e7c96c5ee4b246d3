import ProtoJava.Proofs.Converter.Mentions
import ProtoJava.Proofs.Mapping.Renumbering

/-! # Converters under renumbering

The converter of a file is the same in a renumbered graph, to the last character.
-/

namespace ProtoJava.Converter

open Java
open Mapping
open Schema (MessageId EnumId)

variable {ρ : Nat → Nat} {ctx ctx' : Context} (h : ctx.Renumbers ρ ctx') (file : Nat)

section Values

include h

theorem openEnums_renumber : (Site.mk ctx' (ρ file)).openEnums = (Site.mk ctx file).openEnums :=
  h.graph.of_core (fun f => f.dialect == .proto3) (fun _ => rfl) file

theorem accessorEnd_renumber (v : Value) :
    (Site.mk ctx' (ρ file)).accessorEnd (v.renumber ρ) = (Site.mk ctx file).accessorEnd v := by
  cases v with
  | enum id => simp only [Value.renumber, Site.accessorEnd, openEnums_renumber h]
  | _ => rfl

theorem protoClass_renumber (id : MessageId) :
    (Site.mk ctx' (ρ file)).protoClass (id.renumber ρ) = (Site.mk ctx file).protoClass id :=
  congrArg refer (h.names.protoMessageClass h.graph id)

theorem protoEnumClass_renumber (id : EnumId) :
    (Site.mk ctx' (ρ file)).protoEnumClass (id.renumber ρ) =
      (Site.mk ctx file).protoEnumClass id :=
  congrArg refer (h.names.protoEnumClass h.graph id)

theorem call_renumber (id : MessageId) (method argument : String) :
    (Site.mk ctx' (ρ file)).call (id.renumber ρ) method argument =
      (Site.mk ctx file).call id method argument := by
  have hfile : (id.renumber ρ).file = ρ id.file := rfl
  simp only [Site.call, hfile, h.graph.injective.eq_iff, h.options, h.names.converterClass]

theorem elementType_renumber (v : Value) :
    (Site.mk ctx' (ρ file)).elementType (v.renumber ρ) = (Site.mk ctx file).elementType v := by
  cases v with
  | scalar v => cases v <;> rfl
  | message id => exact protoClass_renumber h file id
  | enum id =>
    simp only [Value.renumber, Site.elementType, openEnums_renumber h, protoEnumClass_renumber h]

theorem decoded_renumber (expression : String) (v : Value) :
    (Site.mk ctx' (ρ file)).decoded expression (v.renumber ρ) =
      (Site.mk ctx file).decoded expression v := by
  cases v with
  | scalar v => cases v <;> rfl
  | message id =>
    simp only [Value.renumber, Site.decoded, h.names.message, call_renumber h]
  | enum id =>
    simp only [Value.renumber, Site.decoded, openEnums_renumber h, referEnum_renumber h]

theorem encoded_renumber (expression : String) (v : Value) :
    (Site.mk ctx' (ρ file)).encoded expression (v.renumber ρ) =
      (Site.mk ctx file).encoded expression v := by
  cases v with
  | scalar v => cases v <;> rfl
  | message id =>
    simp only [Value.renumber, Site.encoded, h.names.message, call_renumber h]
  | enum id =>
    simp only [Value.renumber, Site.encoded, openEnums_renumber h, protoEnumClass_renumber h]

end Values

section Fields

variable (m : Member) (v : Value)

include h

theorem decodeSingle_renumber :
    (Site.mk ctx' (ρ file)).decodeSingle (m.renumber ρ) (v.renumber ρ) =
      (Site.mk ctx file).decodeSingle m v := by
  simp only [Site.decodeSingle, accessorEnd_renumber h, decoded_renumber h]
  cases v <;> rfl

theorem decodeList_renumber :
    (Site.mk ctx' (ρ file)).decodeList (m.renumber ρ) (v.renumber ρ) =
      (Site.mk ctx file).decodeList m v := by
  have helement := elementType_renumber h file v
  have hitem := decoded_renumber h file "item" v
  have hend := accessorEnd_renumber h file v
  cases v with
  | scalar v => cases v <;> rfl
  | message id | enum id =>
    simp only [Value.renumber] at helement hitem hend
    simp only [Value.renumber, Site.decodeList, helement, hitem, hend]
    rfl

theorem decodeMap_renumber (key : Scalar) :
    (Site.mk ctx' (ρ file)).decodeMap (m.renumber ρ) key (v.renumber ρ) =
      (Site.mk ctx file).decodeMap m key v := by
  have helement := elementType_renumber h file v
  have hitem := decoded_renumber h file "entry.getValue()" v
  have hend := accessorEnd_renumber h file v
  cases v with
  | scalar v => cases v <;> rfl
  | message id | enum id =>
    simp only [Value.renumber] at helement hitem hend
    simp only [Value.renumber, Site.decodeMap, helement, hitem, hend]
    rfl

theorem decodeField_renumber :
    (Site.mk ctx' (ρ file)).decodeField (m.renumber ρ) = (Site.mk ctx file).decodeField m := by
  have hkind : (m.renumber ρ).property.kind = m.property.kind.renumber ρ := rfl
  unfold Site.decodeField
  rw [hkind]
  rcases m.property.kind with ⟨v, _ | _⟩ | ⟨id, _ | _⟩ | ⟨id, _ | _⟩ | ⟨key, v⟩ | _ | _
  · exact decodeSingle_renumber h file m (.scalar v)
  · exact decodeList_renumber h file m (.scalar v)
  · exact decodeSingle_renumber h file m (.message id)
  · exact decodeList_renumber h file m (.message id)
  · exact decodeSingle_renumber h file m (.enum id)
  · exact decodeList_renumber h file m (.enum id)
  · exact decodeMap_renumber h file m v key
  · rfl
  · rfl

theorem encodeReference_renumber :
    (Site.mk ctx' (ρ file)).encodeReference (m.renumber ρ) (v.renumber ρ) =
      (Site.mk ctx file).encodeReference m v := by
  simp only [Site.encodeReference, accessorEnd_renumber h, encoded_renumber h]
  rfl

theorem encodeScalar_renumber (v : Scalar) :
    (Site.mk ctx' (ρ file)).encodeScalar (m.renumber ρ) v =
      (Site.mk ctx file).encodeScalar m v := by
  have hvalue : ∀ source, (Site.mk ctx' (ρ file)).encoded source (.scalar v) =
      (Site.mk ctx file).encoded source (.scalar v) :=
    fun source => encoded_renumber h file source (.scalar v)
  simp only [Site.encodeScalar, hvalue]
  rfl

theorem encodeList_renumber :
    (Site.mk ctx' (ρ file)).encodeList (m.renumber ρ) (v.renumber ρ) =
      (Site.mk ctx file).encodeList m v := by
  have helement := Value.type_renumber h true v
  have hitem := encoded_renumber h file "item" v
  have hend := accessorEnd_renumber h file v
  cases v with
  | scalar v => cases v <;> rfl
  | message id | enum id =>
    simp only [Value.renumber] at helement hitem hend
    simp only [Value.renumber, Site.encodeList, helement, hitem, hend]
    rfl

theorem encodeMap_renumber (key : Scalar) :
    (Site.mk ctx' (ρ file)).encodeMap (m.renumber ρ) key (v.renumber ρ) =
      (Site.mk ctx file).encodeMap m key v := by
  have helement := Value.type_renumber h true v
  have hitem := encoded_renumber h file "entry.getValue()" v
  have hend := accessorEnd_renumber h file v
  cases v with
  | scalar v => cases v <;> rfl
  | message id | enum id =>
    simp only [Value.renumber] at helement hitem hend
    simp only [Value.renumber, Site.encodeMap, helement, hitem, hend]
    rfl

theorem encodeField_renumber :
    (Site.mk ctx' (ρ file)).encodeField (m.renumber ρ) = (Site.mk ctx file).encodeField m := by
  have hkind : (m.renumber ρ).property.kind = m.property.kind.renumber ρ := rfl
  unfold Site.encodeField
  rw [hkind]
  rcases m.property.kind with ⟨v, _ | _⟩ | ⟨id, _ | _⟩ | ⟨id, _ | _⟩ | ⟨key, v⟩ | _ | _
  · exact encodeScalar_renumber h file m v
  · exact encodeList_renumber h file m (.scalar v)
  · exact encodeReference_renumber h file m (.message id)
  · exact encodeList_renumber h file m (.message id)
  · exact encodeReference_renumber h file m (.enum id)
  · exact encodeList_renumber h file m (.enum id)
  · exact encodeMap_renumber h file m v key
  · rfl
  · rfl

end Fields

section Items

include h

theorem decodeArm_renumber (v : Variant) :
    (Site.mk ctx' (ρ file)).decodeArm (v.renumber ρ) = (Site.mk ctx file).decodeArm v := by
  have hvalue : (v.renumber ρ).member.property.value? =
      v.member.property.value?.map (Value.renumber ρ) :=
    Property.value?_renumber v.member.property
  unfold Site.decodeArm
  rw [hvalue]
  cases v.member.property.value? with
  | none => rfl
  | some value =>
    simp only [Option.map_some, accessorEnd_renumber h, decoded_renumber h]
    rfl

omit h in
theorem canBeNull_renumber (v : Value) : Site.canBeNull (v.renumber ρ) = Site.canBeNull v := by
  cases v <;> rfl

theorem encodeArm_renumber (v : Variant) :
    (Site.mk ctx' (ρ file)).encodeArm (v.renumber ρ) = (Site.mk ctx file).encodeArm v := by
  have hvalue : (v.renumber ρ).member.property.value? =
      v.member.property.value?.map (Value.renumber ρ) :=
    Property.value?_renumber v.member.property
  unfold Site.encodeArm
  rw [hvalue]
  cases v.member.property.value? with
  | none => rfl
  | some value =>
    simp only [Option.map_some, accessorEnd_renumber h, encoded_renumber h, canBeNull_renumber]
    rfl

theorem decodeItem_renumber (item : Item) :
    (Site.mk ctx' (ρ file)).decodeItem (item.renumber ρ) = (Site.mk ctx file).decodeItem item := by
  cases item with
  | field m => exact decodeField_renumber h file m
  | union u =>
    simp only [Item.renumber, Site.decodeItem, Site.decodeUnion, Union.renumber, List.mapM_map,
      Function.comp_def, decodeArm_renumber h]

theorem encodeItem_renumber (item : Item) :
    (Site.mk ctx' (ρ file)).encodeItem (item.renumber ρ) = (Site.mk ctx file).encodeItem item := by
  cases item with
  | field m => exact encodeField_renumber h file m
  | union u =>
    simp only [Item.renumber, Site.encodeItem, Site.encodeUnion, Union.renumber, List.mapM_map,
      Function.comp_def, encodeArm_renumber h]

end Items

section Methods

variable (id : MessageId) (shape : Shape)

include h

theorem decodeMethod_renumber :
    (Site.mk ctx' (ρ file)).decodeMethod (id.renumber ρ) (shape.renumber ρ) =
      (Site.mk ctx file).decodeMethod id shape := by
  simp only [Site.decodeMethod, Site.beanClass, referMessage_renumber h, protoClass_renumber h,
    Shape.items_renumber, List.mapM_map, Function.comp_def, decodeItem_renumber h]
  rfl

theorem encodeMethod_renumber :
    (Site.mk ctx' (ρ file)).encodeMethod (id.renumber ρ) (shape.renumber ρ) =
      (Site.mk ctx file).encodeMethod id shape := by
  simp only [Site.encodeMethod, Site.beanClass, referMessage_renumber h, protoClass_renumber h,
    Shape.items_renumber, List.mapM_map, Function.comp_def, encodeItem_renumber h]
  rfl

theorem parseMethod_renumber :
    (Site.mk ctx' (ρ file)).parseMethod (id.renumber ρ) = (Site.mk ctx file).parseMethod id := by
  simp only [Site.parseMethod, Site.beanClass, referMessage_renumber h, protoClass_renumber h,
    h.names.message]

theorem bytesMethod_renumber :
    (Site.mk ctx' (ρ file)).bytesMethod (id.renumber ρ) = (Site.mk ctx file).bytesMethod id := by
  simp only [Site.bytesMethod, Site.beanClass, referMessage_renumber h, h.names.message]

theorem messageMethods_renumber :
    (Site.mk ctx' (ρ file)).messageMethods (id.renumber ρ) (shape.renumber ρ) =
      (Site.mk ctx file).messageMethods id shape := by
  simp only [Site.messageMethods, parseMethod_renumber h, decodeMethod_renumber h,
    encodeMethod_renumber h, bytesMethod_renumber h]
  rfl

theorem classSteps_renumber (name : String) (shapes : List (MessageId × Shape)) :
    (Site.mk ctx' (ρ file)).classSteps name
        (shapes.map fun p => (p.1.renumber ρ, p.2.renumber ρ)) =
      (Site.mk ctx file).classSteps name shapes := by
  simp only [Site.classSteps, List.mapM_map, Function.comp_def, messageMethods_renumber h]

theorem convertedMessages_renumber :
    (Site.mk ctx' (ρ file)).convertedMessages = (Site.mk ctx file).convertedMessages :=
  h.graph.of_core (fun f => (List.range f.messages.length).filter fun i => !(f.message i).mapEntry)
    (fun _ => rfl) file

theorem shapes_renumber : (Site.mk ctx' (ρ file)).shapes =
    (Site.mk ctx file).shapes.map (List.map fun p => (p.1.renumber ρ, p.2.renumber ρ)) := by
  have hshape : ∀ i ∈ (Site.mk ctx file).convertedMessages,
      (do return ((⟨ρ file, i⟩ : MessageId), ← Shape.of ctx' ⟨ρ file, i⟩)) =
        (do return ((⟨file, i⟩ : MessageId), ← Shape.of ctx ⟨file, i⟩) :
          Except Error (MessageId × Shape)).map fun p => (p.1.renumber ρ, p.2.renumber ρ) :=
    fun i _ => bind_eq_map (Shape.of_renumber h ⟨file, i⟩) fun _ _ => rfl
  rw [Site.shapes, convertedMessages_renumber h]
  exact mapM_eq_map hshape

theorem converterOf_renumber (shapes : List (MessageId × Shape)) :
    converterOf (Site.mk ctx' (ρ file)) (shapes.map fun p => (p.1.renumber ρ, p.2.renumber ρ)) =
      converterOf (Site.mk ctx file) shapes := by
  have hname : (Site.mk ctx' (ρ file)).source.name = (Site.mk ctx file).source.name :=
    h.graph.of_core (·.name) (fun _ => rfl) file
  have hprologue : ∀ package imports, prologue package (Site.mk ctx' (ρ file)).source imports =
      prologue package (Site.mk ctx file).source imports :=
    prologue_of_core (h.graph.core file)
  have hclass : ctx'.names.converterClass ctx'.options.converterPackage (ρ file) =
      ctx.names.converterClass ctx.options.converterPackage file := by
    rw [h.options, h.names.converterClass]
  simp only [converterOf, hclass, classSteps_renumber h, hname, hprologue]

/-- The converter of a file is the same in a renumbered graph. -/
theorem converter_renumber : converter ctx' (ρ file) = converter ctx file := by
  rw [converter_eq_shapes, converter_eq_shapes, convertedMessages_renumber h, shapes_renumber h]
  cases (Site.mk ctx file).shapes with
  | error e => simp only [Except.map]
  | ok shapes => simp only [Except.map, converterOf_renumber h]

end Methods

end ProtoJava.Converter
