import ProtoJava.Converter.Encode
import ProtoJava.Proofs.Mapping.Referring

/-! # Converted values

How single values get from protobuf-java into a bean and back: the expression that stands for a
value on the other side, and the types that loops over several values name.
-/

namespace ProtoJava.Converter

open Mapping
open Schema (MessageId EnumId)

/-- The class of the keys of a map. -/
def keyClass : Scalar → String
  | .double => "Double"
  | .float => "Float"
  | .int32 | .uint32 => "Integer"
  | .int64 | .uint64 => "Long"
  | .bool => "Boolean"
  | .string => "String"
  | .bytes => "byte[]"

/-- A value that is never null in a bean field of its own type. -/
inductive Primitive : Value → Prop
  | scalar {v : Scalar} (hs : v ≠ .string) (hb : v ≠ .bytes) : Primitive (.scalar v)

namespace Site

/-- Whether protobuf-java hands out enums as numbers, some of which have no constant. -/
def Numeric (s : Site) : Prop :=
  s.source.dialect = .proto3

instance (s : Site) : Decidable s.Numeric :=
  inferInstanceAs (Decidable (_ = _))

/-- What the classes of a message are called on both sides. -/
structure ClassesCalled (s : Site) (id : MessageId) (bean proto : String) : Prop where
  bean : (s.names.messageClass s.graph id).IsCalled bean
  proto : (s.names.protoMessageClass s.graph id).IsCalled proto

/-- What accessors for a value end in. -/
def ending (s : Site) : Value → String
  | .enum _ => if s.Numeric then "Value" else ""
  | .message _ | .scalar _ => ""

/-- A call of the method for a message, which is in another converter if the message is in another
file. -/
inductive Calls (s : Site) (id : MessageId) (method e : String) : String → Prop
  | own (h : id.file = s.file) : Calls s id method e (method ++ "(" ++ e ++ ")")
  | foreign {type : String} (h : id.file ≠ s.file)
    (ht : (s.names.converterClass s.options.converterPackage id.file).IsCalled type) :
    Calls s id method e (type ++ "." ++ method ++ "(" ++ e ++ ")")

/-- The bean form of a value that an expression of protobuf-java stands for. -/
inductive Decodes (s : Site) (e : String) : Value → String → Prop
  | bytes : Decodes s e (.scalar .bytes) (e ++ ".toByteArray()")
  | scalar {v : Scalar} (hb : v ≠ .bytes) : Decodes s e (.scalar v) e
  | message {id : MessageId} {text : String}
    (h : s.Calls id (s.names.message id).converter.decode e text) : Decodes s e (.message id) text
  | number {id : EnumId} {type : String} (h : s.Numeric)
    (ht : (s.names.enumClass s.graph id).IsCalled type) :
    Decodes s e (.enum id) (type ++ ".forNumber(" ++ e ++ ")")
  | enum {id : EnumId} {type : String} (h : ¬ s.Numeric)
    (ht : (s.names.enumClass s.graph id).IsCalled type) :
    Decodes s e (.enum id) (type ++ ".forNumber(" ++ e ++ ".getNumber())")

/-- The form for protobuf-java of a value that an expression in a bean stands for. -/
inductive Encodes (s : Site) (e : String) : Value → String → Prop
  | bytes {type : String} (ht : (⟨"com.google.protobuf", ["ByteString"]⟩ : Java.ClassName).IsCalled
      type) : Encodes s e (.scalar .bytes) (type ++ ".copyFrom(" ++ e ++ ")")
  | scalar {v : Scalar} (hb : v ≠ .bytes) : Encodes s e (.scalar v) e
  | message {id : MessageId} {text : String}
    (h : s.Calls id (s.names.message id).converter.encode e text) : Encodes s e (.message id) text
  | number (id : EnumId) (h : s.Numeric) : Encodes s e (.enum id) (e ++ ".getNumber()")
  | enum {id : EnumId} {type : String} (h : ¬ s.Numeric)
    (ht : (s.names.protoEnumClass s.graph id).IsCalled type) :
    Encodes s e (.enum id) (type ++ ".forNumber(" ++ e ++ ".getNumber())")

/-- The type of a value that protobuf-java hands out among others, where it is converted. -/
inductive ProtoElement (s : Site) : Value → String → Prop
  | bytes {type : String} (ht : (⟨"com.google.protobuf", ["ByteString"]⟩ : Java.ClassName).IsCalled
      type) : ProtoElement s (.scalar .bytes) type
  | message {id : MessageId} {type : String}
    (ht : (s.names.protoMessageClass s.graph id).IsCalled type) : ProtoElement s (.message id) type
  | number (id : EnumId) (h : s.Numeric) : ProtoElement s (.enum id) "Integer"
  | enum {id : EnumId} {type : String} (h : ¬ s.Numeric)
    (ht : (s.names.protoEnumClass s.graph id).IsCalled type) : ProtoElement s (.enum id) type

/-- The type of a value that a bean holds among others, where it is converted. -/
inductive BeanElement (s : Site) : Value → String → Prop
  | bytes : BeanElement s (.scalar .bytes) "byte[]"
  | message {id : MessageId} {type : String}
    (ht : (s.names.messageClass s.graph id).IsCalled type) : BeanElement s (.message id) type
  | enum {id : EnumId} {type : String} (ht : (s.names.enumClass s.graph id).IsCalled type) :
    BeanElement s (.enum id) type

end Site

/-- Whether lists and maps of a value are the same on both sides. -/
def isShared : Value → Bool
  | .scalar .bytes | .message _ | .enum _ => false
  | .scalar _ => true

theorem isShared_scalar {v : Scalar} (h : v ≠ .bytes) : isShared (.scalar v) := by
  cases v <;> first | rfl | exact absurd rfl h

theorem isReference_iff {v : Scalar} : v.isReference ↔ ¬ Primitive (.scalar v) := by
  constructor
  · rintro h ⟨hs, hb⟩
    cases v <;> first | exact hs rfl | exact hb rfl | exact Bool.false_ne_true h
  · intro h
    cases v <;> first | rfl | exact absurd ⟨by decide, by decide⟩ h

theorem canBeNull_iff {v : Value} : Site.canBeNull v ↔ ¬ Primitive v := by
  cases v with
  | scalar v => exact isReference_iff
  | message id => exact iff_of_true rfl (by rintro ⟨⟩)
  | enum id => exact iff_of_true rfl (by rintro ⟨⟩)

theorem boxed_eq_keyClass (v : Scalar) : v.boxed = keyClass v := by
  cases v <;> rfl

section Yields

variable (s : Site) (e : String)

theorem openEnums_iff : s.openEnums ↔ s.Numeric := by
  simp [Site.openEnums, Site.Numeric]

theorem accessorEnd_eq (v : Value) : s.accessorEnd v = s.ending v := by
  cases v with
  | enum id => simp only [Site.accessorEnd, Site.ending, openEnums_iff]
  | message id => rfl
  | scalar v => rfl

theorem call_calls (id : MessageId) (method : String) :
    Yields AnyImports (s.call id method e) (s.Calls id method e) := by
  unfold Site.call
  split
  · next h => exact .pure (.own h)
  · next h => exact (yields_isCalled _).bind fun type ht => .pure (.foreign h ht)

theorem decoded_decodes (v : Value) : Yields AnyImports (s.decoded e v) (s.Decodes e v) := by
  unfold Site.decoded
  split
  · exact .pure .bytes
  · next h => exact .pure (.scalar h)
  · exact fun i hi => ⟨.message (call_calls s e _ _ i hi).1, trivial⟩
  · refine (yields_isCalled _).bind fun type ht => .pure ?_
    split
    · next h => exact .number ((openEnums_iff s).mp h) ht
    · next h => exact .enum (fun hn => h ((openEnums_iff s).mpr hn)) ht

theorem encoded_encodes (v : Value) : Yields AnyImports (s.encoded e v) (s.Encodes e v) := by
  unfold Site.encoded
  split
  · exact (yields_isCalled _).bind fun type ht => .pure (.bytes ht)
  · next h => exact .pure (.scalar h)
  · exact fun i hi => ⟨.message (call_calls s e _ _ i hi).1, trivial⟩
  · split
    · next h => exact .pure (.number _ ((openEnums_iff s).mp h))
    · next h =>
      exact (yields_isCalled _).bind fun type ht =>
        .pure (.enum (fun hn => h ((openEnums_iff s).mpr hn)) ht)

theorem elementType_protoElement {v : Value} (h : isShared v = false) :
    Yields AnyImports (s.elementType v) (s.ProtoElement v) := by
  unfold Site.elementType
  split
  · exact fun i hi => ⟨.bytes (yields_isCalled _ i hi).1, trivial⟩
  · next v hb => exact absurd (h.symm.trans (isShared_scalar hb)) Bool.false_ne_true
  · exact fun i hi => ⟨.message (yields_isCalled _ i hi).1, trivial⟩
  · split
    · next h => exact .pure (.number _ ((openEnums_iff s).mp h))
    · next h =>
      exact fun i hi =>
        ⟨.enum (fun hn => h ((openEnums_iff s).mpr hn)) (yields_isCalled _ i hi).1, trivial⟩

theorem type_beanElement {v : Value} (h : isShared v = false) :
    Yields AnyImports (v.type s.toContext true) (s.BeanElement v) := by
  cases v with
  | scalar v =>
    have hb : v = .bytes := by
      by_contra hb
      exact absurd (h.symm.trans (isShared_scalar hb)) Bool.false_ne_true
    subst hb
    exact .pure .bytes
  | message id => exact fun i hi => ⟨.message (yields_isCalled _ i hi).1, trivial⟩
  | enum id => exact fun i hi => ⟨.enum (yields_isCalled _ i hi).1, trivial⟩

end Yields

end ProtoJava.Converter
