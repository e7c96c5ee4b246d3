import ProtoJava.Proofs.Drafts
import ProtoJava.Proofs.Mapping.Mentions

/-! # Classes named by converters

A converter names both classes of every value in its messages: the one of beans, and the one of
protobuf-java unless it deals in numbers; and for messages of other files their converters.
-/

namespace ProtoJava.Converter

open Java
open Mapping
open Schema (MessageId)

section Texts

variable {P : ClassName → Prop} {s : Site}

namespace Site

/-- The classes that a converter names for a value satisfy `P`. -/
def Admits (s : Site) (P : ClassName → Prop) : Value → Prop
  | .scalar _ => True
  | .message id => P (s.names.messageClass s.graph id) ∧
      P (s.names.protoMessageClass s.graph id) ∧
      P (s.names.converterClass s.options.converterPackage id.file)
  | .enum id => P (s.names.enumClass s.graph id) ∧
      (s.openEnums = false → P (s.names.protoEnumClass s.graph id))

/-- The classes that are converted into each other for a message satisfy `P`. -/
def AdmitsOwn (s : Site) (P : ClassName → Prop) (id : MessageId) : Prop :=
  P (s.names.messageClass s.graph id) ∧ P (s.names.protoMessageClass s.graph id)

end Site

theorem admits_bean {v : Value} (h : s.Admits P v) : s.toContext.Admits P v := by
  cases v with
  | scalar v => trivial
  | message id => exact h.1
  | enum id => exact h.1

theorem call_mentions {id : MessageId} (h : s.Admits P (.message id)) (method argument : String) :
    Mentions P (s.call id method argument) := by
  unfold Site.call
  split
  · exact .pure _
  · exact .bind (.refer h.2.2) fun _ => .pure _

variable (hl : ∀ c : ClassName, c.package ∈ libraryPackages → P c)

include hl

theorem elementType_mentions {v : Value} (h : s.Admits P v) : Mentions P (s.elementType v) := by
  unfold Site.elementType
  split
  · exact .refer (hl _ (by decide))
  · exact .pure _
  · exact .refer h.2.1
  · split
    · exact .pure _
    · next hopen => exact .refer (h.2 (by simpa using hopen))

omit hl in
theorem decoded_mentions {v : Value} (h : s.Admits P v) (expression : String) :
    Mentions P (s.decoded expression v) := by
  unfold Site.decoded
  split
  · exact .pure _
  · exact .pure _
  · exact call_mentions h _ _
  · exact .bind (referEnum_mentions (admits_bean h)) fun _ => .pure _

theorem encoded_mentions {v : Value} (h : s.Admits P v) (expression : String) :
    Mentions P (s.encoded expression v) := by
  unfold Site.encoded
  split
  · exact .bind (.refer (hl _ (by decide))) fun _ => .pure _
  · exact .pure _
  · exact call_mentions h _ _
  · split
    · exact .pure _
    · next hopen => exact .bind (.refer (h.2 (by simpa using hopen))) fun _ => .pure _

section Decoding

variable {m : Member}

omit hl in
theorem decodeSingle_mentions {v : Value} (h : s.Admits P v) :
    Mentions P (s.decodeSingle m v) :=
  .bind (decoded_mentions h _) fun _ => .pure _

theorem decodeList_mentions {v : Value} (h : s.Admits P v) : Mentions P (s.decodeList m v) := by
  unfold Site.decodeList
  split
  case h_4 => exact .pure _
  all_goals
    exact .bind (elementType_mentions hl h) fun _ => .bind (decoded_mentions h _) fun _ => .pure _

theorem decodeMap_mentions {v : Value} (h : s.Admits P v) (key : Scalar) :
    Mentions P (s.decodeMap m key v) := by
  have hentry : P (mapClass.nested "Entry") := hl _ (by decide)
  unfold Site.decodeMap
  split
  case h_4 => exact .pure _
  all_goals
    exact .bind (.refer hentry) fun _ => .bind (elementType_mentions hl h) fun _ =>
      .bind (decoded_mentions h _) fun _ => .pure _

theorem decodeField_mentions (hm : m.Holds (s.Admits P)) : Mentions P (s.decodeField m) := by
  have helement : s.Admits P m.property.kind.element := hm _ List.mem_cons_self
  unfold Site.decodeField
  generalize m.property.kind = kind at helement
  match kind, helement with
  | .scalar v false, h => exact decodeSingle_mentions h
  | .message id false, h => exact decodeSingle_mentions h
  | .enum id false, h => exact decodeSingle_mentions h
  | .scalar v true, h => exact decodeList_mentions hl h
  | .message id true, h => exact decodeList_mentions hl h
  | .enum id true, h => exact decodeList_mentions hl h
  | .map key v, h => exact decodeMap_mentions hl h key
  | .variant _ _, _ => exact .pure _
  | .extension _ _ _, _ => exact .pure _

omit hl in
theorem decodeArm_mentions {v : Variant} (hv : v.member.Holds (s.Admits P)) :
    Mentions P (s.decodeArm v) := by
  unfold Site.decodeArm
  split
  · exact .pure _
  · next hvalue => exact .bind (decoded_mentions (hv.value hvalue) _) fun _ => .pure _

theorem decodeItem_mentions {item : Item} (h : item.Holds (s.Admits P)) :
    Mentions P (s.decodeItem item) := by
  cases item with
  | field m => exact decodeField_mentions hl h
  | union u => exact .bind (.mapM fun v hv => decodeArm_mentions (h v hv)) fun _ => .pure _

end Decoding

section Encoding

variable {m : Member}

theorem encodeReference_mentions {v : Value} (h : s.Admits P v) :
    Mentions P (s.encodeReference m v) :=
  .bind (encoded_mentions hl h _) fun _ => .pure _

theorem encodeScalar_mentions (v : Scalar) : Mentions P (s.encodeScalar m v) :=
  have h : s.Admits P (.scalar v) := trivial
  .bind (encoded_mentions hl h _) fun _ => .pure _

theorem encodeList_mentions {v : Value} (h : s.Admits P v) : Mentions P (s.encodeList m v) := by
  unfold Site.encodeList
  split
  case h_4 => exact .pure _
  all_goals
    exact .bind (Value.type_mentions (admits_bean h) true) fun _ =>
      .bind (encoded_mentions hl h _) fun _ => .pure _

theorem encodeMap_mentions {v : Value} (h : s.Admits P v) (key : Scalar) :
    Mentions P (s.encodeMap m key v) := by
  have hentry : P (mapClass.nested "Entry") := hl _ (by decide)
  unfold Site.encodeMap
  split
  case h_4 => exact .pure _
  all_goals
    exact .bind (.refer hentry) fun _ => .bind (Value.type_mentions (admits_bean h) true) fun _ =>
      .bind (encoded_mentions hl h _) fun _ => .pure _

theorem encodeField_mentions (hm : m.Holds (s.Admits P)) : Mentions P (s.encodeField m) := by
  have helement : s.Admits P m.property.kind.element := hm _ List.mem_cons_self
  unfold Site.encodeField
  generalize m.property.kind = kind at helement
  match kind, helement with
  | .scalar v false, _ => exact encodeScalar_mentions hl v
  | .message id false, h => exact encodeReference_mentions hl h
  | .enum id false, h => exact encodeReference_mentions hl h
  | .scalar v true, h => exact encodeList_mentions hl h
  | .message id true, h => exact encodeList_mentions hl h
  | .enum id true, h => exact encodeList_mentions hl h
  | .map key v, h => exact encodeMap_mentions hl h key
  | .variant _ _, _ => exact .pure _
  | .extension _ _ _, _ => exact .pure _

theorem encodeArm_mentions {v : Variant} (hv : v.member.Holds (s.Admits P)) :
    Mentions P (s.encodeArm v) := by
  unfold Site.encodeArm
  split
  · exact .pure _
  · next hvalue => exact .bind (encoded_mentions hl (hv.value hvalue) _) fun _ => .pure _

theorem encodeItem_mentions {item : Item} (h : item.Holds (s.Admits P)) :
    Mentions P (s.encodeItem item) := by
  cases item with
  | field m => exact encodeField_mentions hl h
  | union u => exact .bind (.mapM fun v hv => encodeArm_mentions hl (h v hv)) fun _ => .pure _

end Encoding

section Methods

theorem messageMethods_mentions {id : MessageId} {shape : Shape} (ho : s.AdmitsOwn P id)
    (hs : shape.Holds (s.Admits P)) : Mentions P (s.messageMethods id shape) := by
  have hbean : Mentions P (s.beanClass id) := .refer ho.1
  have hproto : Mentions P (s.protoClass id) := .refer ho.2
  have hparse : Mentions P (s.parseMethod id) :=
    .bind hbean fun _ => .bind hproto fun _ => .bind (.refer (hl _ (by decide))) fun _ => .pure _
  have hdecode : Mentions P (s.decodeMethod id shape) :=
    .bind hbean fun _ => .bind hproto fun _ =>
      .bind (.mapM fun item hi => decodeItem_mentions hl (hs.items item hi)) fun _ => .pure _
  have hencode : Mentions P (s.encodeMethod id shape) :=
    .bind hbean fun _ => .bind hproto fun _ =>
      .bind (.mapM fun item hi => encodeItem_mentions hl (hs.items item hi)) fun _ => .pure _
  have hbytes : Mentions P (s.bytesMethod id) := .bind hbean fun _ => .pure _
  refine Mentions.optional hparse (fun _ => ?_) _
  exact .bind hdecode fun _ => .bind hencode fun _ => Mentions.optional hbytes (fun _ => .pure _) _

/-- The class of a converter names only classes of the values in its messages, of these messages,
and of the Java libraries. -/
theorem classSteps_mentions {shapes : List (MessageId × Shape)}
    (hs : ∀ p ∈ shapes, s.AdmitsOwn P p.1 ∧ p.2.Holds (s.Admits P)) (name : String) :
    Mentions P (s.classSteps name shapes) :=
  .bind (.mapM fun p hp => messageMethods_mentions hl (hs p hp).1 (hs p hp).2) fun _ => .pure _

end Methods

end Texts

end ProtoJava.Converter
