import ProtoJava.Converter.File
import ProtoJava.Proofs.Bean.Balanced

/-! # Balance of converters

The steps that write converters are balanced, writer by writer.
-/

namespace ProtoJava.Converter

open Java
open Mapping
open Bean (Balances balanced_of_forall₂)
open Schema (MessageId EnumId)

variable {s : Site} (hctx : s.toContext.Proper)

section Values

variable {expression : String}

theorem byteStringClass_neutral : byteStringClass.Neutral :=
  neutral_library (fun _ => .lit rfl) fun _ => .lit rfl

theorem neutral_accessorEnd (v : Value) : Neutral (s.accessorEnd v) := by
  unfold Site.accessorEnd
  split
  · split <;> exact fun _ => .lit rfl
  · exact neutral_empty

include hctx

theorem beanClass_gives (id : MessageId) : Gives (s.beanClass id) :=
  referMessage_gives hctx id

theorem protoClass_gives (id : MessageId) : Gives (s.protoClass id) :=
  refer_gives (hctx.names.neutral_protoClass _ (hctx.typeName id))

theorem protoEnumClass_gives (id : EnumId) : Gives (s.protoEnumClass id) :=
  refer_gives (hctx.names.neutral_protoClass _ (hctx.enumTypeName id))

theorem call_gives {id : MessageId} {method : String} (hm : Neutral method)
    (he : Neutral expression) : Gives (s.call id method expression) := by
  have hcall : Neutral (method ++ "(" ++ expression ++ ")") :=
    fun _ => .append (.append (.append hm.turn (.lit rfl)) he.turn) (.lit rfl)
  unfold Site.call
  split
  · exact Yields.pure hcall
  · have hconverter := hctx.names.neutral_converterClass
      (neutral_of_isPackageName hctx.converterPackage) id.file
    refine (refer_gives hconverter).bind fun name hn => Yields.pure ?_
    intro a
    repeat' apply Turn.append
    all_goals first | exact Neutral.turn (by assumption) | exact .lit rfl

theorem elementType_gives (v : Value) : Gives (s.elementType v) := by
  unfold Site.elementType
  split
  · exact refer_gives byteStringClass_neutral
  · exact Yields.pure (neutral_boxed _)
  · exact protoClass_gives hctx _
  · split
    · exact Yields.pure fun _ => .lit rfl
    · exact protoEnumClass_gives hctx _

theorem decoded_gives (he : Neutral expression) (v : Value) : Gives (s.decoded expression v) := by
  unfold Site.decoded
  split
  · exact Yields.pure (he.append fun _ => .lit rfl)
  · exact Yields.pure he
  · exact call_gives hctx (hctx.names.neutral_converter _).1 he
  · refine (referEnum_gives hctx _).bind fun name hn => Yields.pure ?_
    intro a
    refine .append (.append (.append hn.turn (.lit rfl)) he.turn) ?_
    split <;> exact .lit rfl

theorem encoded_gives (he : Neutral expression) (v : Value) : Gives (s.encoded expression v) := by
  unfold Site.encoded
  split
  · refine (refer_gives byteStringClass_neutral).bind fun name hn => Yields.pure fun a => ?_
    exact .append (.append (.append hn.turn (.lit rfl)) he.turn) (.lit rfl)
  · exact Yields.pure he
  · exact call_gives hctx (hctx.names.neutral_converter _).2.1 he
  · split
    · exact Yields.pure (he.append fun _ => .lit rfl)
    · refine (protoEnumClass_gives hctx _).bind fun name hn => Yields.pure fun a => ?_
      exact .append (.append (.append hn.turn (.lit rfl)) he.turn) (.lit rfl)

end Values

/-- An arm of a switch whose statements open and close brackets in order, line by line. -/
structure Arm.Proper (arm : Arm) : Prop where
  label : Neutral arm.label
  statements : Balanced (arm.statements.map fun s => .line ("    " ++ s))

theorem balanced_switchStep {selector : String} {arms : List Arm} (hs : Neutral selector)
    (ha : ∀ arm ∈ arms, arm.Proper) : Balanced [switchStep selector arms] := by
  have hhead : Neutral ("switch (" ++ selector ++ ")") :=
    fun _ => .append (.append (.lit rfl) hs.turn) (.lit rfl)
  have hend : Balanced [.line "default:", .line "    break;"] :=
    .cons (.line fun _ => .lit rfl) (.line fun _ => .lit rfl)
  refine .braced hhead (.append (.flatMap fun arm h => ?_) hend)
  have hcase : Neutral ("case " ++ arm.label ++ ":") :=
    (Neutral.append (fun _ => .lit rfl) (ha arm h).label).append fun _ => .lit rfl
  exact .append (.cons (.line hcase) (ha arm h).statements) (.line fun _ => .lit rfl)

/-- The arms of the variants of a union. -/
theorem arms_proper {variants : List Variant} {arms : List (Option Arm)}
    (h : List.Forall₂ (fun _ arm => ∀ a ∈ arm, Arm.Proper a) variants arms) :
    ∀ arm ∈ arms.filterMap id, arm.Proper := by
  intro arm hm
  obtain ⟨_, hmem, rfl⟩ := List.mem_filterMap.mp hm
  obtain ⟨v, -, harm⟩ := forall₂_exists_right h hmem
  exact harm arm rfl

section Decoding

include hctx

variable {m : Member} (hm : m.Proper)

include hm

theorem decodeSingle_balances (v : Value) : Balances (s.decodeSingle m v) := by
  have hstem := hm.names.accessor
  have hfield := neutral_of_isIdentifier hm.names.field
  have hend := neutral_accessorEnd (s := s) v
  have hget : Neutral ("pb.get" ++ m.names.accessor ++ s.accessorEnd v ++ "()") :=
    ((Neutral.append (fun _ => .lit rfl) hstem).append hend).append fun _ => .lit rfl
  have htest : Neutral ("if (pb.has" ++ m.names.accessor ++ "())") :=
    fun _ => .append (.append (.lit rfl) hstem.turn) (.lit rfl)
  refine (decoded_gives hctx hget v).bind fun expression he => Yields.pure ?_
  have hstatement : Neutral ("bean." ++ m.names.field ++ " = " ++ expression ++ ";") :=
    (((Neutral.append (fun _ => .lit rfl) hfield).append fun _ => .lit rfl).append he).append
      fun _ => .lit rfl
  split_ifs
  · exact .braced htest (.line hstatement)
  · exact .line hstatement

theorem decodeList_balances (v : Value) : Balances (s.decodeList m v) := by
  have hstem := hm.names.accessor
  have hfield := neutral_of_isIdentifier hm.names.field
  have hend := neutral_accessorEnd (s := s) v
  have hitem : Neutral "item" := fun _ => .lit rfl
  unfold Site.decodeList
  split
  case h_4 =>
    refine Yields.pure (.line fun a => ?_)
    repeat' apply Turn.append
    all_goals first | exact Neutral.turn (by assumption) | exact .lit rfl
  all_goals
    refine (elementType_gives hctx _).bind fun element he => ?_
    refine (decoded_gives hctx hitem _).bind fun item hi => Yields.pure (.braced ?_ (.line ?_))
    all_goals
      intro a
      repeat' apply Turn.append
      all_goals first | exact Neutral.turn (by assumption) | exact .lit rfl

theorem decodeMap_balances (key : Scalar) (v : Value) : Balances (s.decodeMap m key v) := by
  have hstem := hm.names.accessor
  have hfield := neutral_of_isIdentifier hm.names.field
  have hend := neutral_accessorEnd (s := s) v
  have hkey := neutral_boxed key
  have hentry : (mapClass.nested "Entry").Neutral :=
    (neutral_library (fun _ => .lit rfl) fun _ => .lit rfl).nested fun _ => .lit rfl
  have hvalue : Neutral "entry.getValue()" := fun _ => .lit rfl
  unfold Site.decodeMap
  split
  case h_4 =>
    refine Yields.pure (.line fun a => ?_)
    repeat' apply Turn.append
    all_goals first | exact Neutral.turn (by assumption) | exact .lit rfl
  all_goals
    refine (refer_gives hentry).bind fun entry hn => ?_
    refine (elementType_gives hctx _).bind fun element he => ?_
    refine (decoded_gives hctx hvalue _).bind fun item hi => Yields.pure (.braced ?_ (.line ?_))
    all_goals
      intro a
      repeat' apply Turn.append
      all_goals first | exact Neutral.turn (by assumption) | exact .lit rfl

theorem decodeField_balances : Balances (s.decodeField m) := by
  unfold Site.decodeField
  split
  · exact decodeSingle_balances hctx hm _
  · exact decodeSingle_balances hctx hm _
  · exact decodeSingle_balances hctx hm _
  · exact decodeList_balances hctx hm _
  · exact decodeList_balances hctx hm _
  · exact decodeList_balances hctx hm _
  · exact decodeMap_balances hctx hm _ _
  · exact Yields.pure .nil
  · exact Yields.pure .nil

omit hm in
theorem decodeArm_gives {v : Variant} (hv : v.Proper) :
    Yields Imports.Tidy (s.decodeArm v) fun arm => ∀ a ∈ arm, Arm.Proper a := by
  unfold Site.decodeArm
  split
  · exact Yields.pure (by simp)
  · next value _ =>
    have hget : Neutral ("pb.get" ++ v.member.names.accessor ++ s.accessorEnd value ++ "()") :=
      ((Neutral.append (fun _ => .lit rfl) hv.member.names.accessor).append
        (neutral_accessorEnd value)).append fun _ => .lit rfl
    refine (decoded_gives hctx hget value).bind fun expression he => Yields.pure ?_
    have hset := hv.names.setter
    rintro _ ⟨⟩
    refine ⟨hv.names.protoCaseConstant, .line fun a => ?_⟩
    refine .append (.lit rfl) ?_
    repeat' apply Turn.append
    all_goals first | exact Neutral.turn (by assumption) | exact .lit rfl

omit hm in
theorem decodeItem_balances {item : Item} (h : item.Proper) : Balances (s.decodeItem item) := by
  cases item with
  | field m => exact decodeField_balances hctx h
  | union u =>
    have hselector : Neutral ("pb." ++ u.names.protoCaseGetter ++ "()") :=
      (Neutral.append (fun _ => .lit rfl) h.names.protoCaseGetter).append fun _ => .lit rfl
    refine (Yields.mapM fun v hv => decodeArm_gives hctx (h.variants v hv)).bind
      fun arms ha => Yields.pure ?_
    exact balanced_switchStep hselector (arms_proper ha)

omit hm in
theorem decodeMethod_balances (id : MessageId) {shape : Shape} (h : shape.Proper) :
    Balances (s.decodeMethod id shape) := by
  refine (beanClass_gives hctx id).bind fun bean hb => ?_
  refine (protoClass_gives hctx id).bind fun proto hp => ?_
  refine (Yields.mapM fun i hi => decodeItem_balances hctx (h.items i hi)).bind
    fun items hitems => Yields.pure ?_
  have hdecode := neutral_of_isIdentifier h.names.converter.decode
  have hhead : Neutral ("public static " ++ bean ++ " " ++ shape.names.converter.decode ++
      ("(" ++ proto ++ " pb)")) := by
    intro a
    repeat' apply Turn.append
    all_goals first | exact Neutral.turn (by assumption) | exact .lit rfl
  have hbean : Neutral (bean ++ " bean = new " ++ bean ++ "();") :=
    ((hb.append fun _ => .lit rfl).append hb).append fun _ => .lit rfl
  refine .declared h.names.converter.decode hhead (.append (.append ?_ ?_) ?_)
  · exact .cons (.braced (fun _ => .lit rfl) (.line fun _ => .lit rfl)) (.line hbean)
  · exact balanced_of_forall₂ hitems
  · exact .line fun _ => .lit rfl

omit hm in
theorem parseMethod_balances (id : MessageId) :
    Yields Imports.Tidy (s.parseMethod id) fun step => Balanced [step] := by
  have herror : parseErrorClass.Neutral := neutral_library (fun _ => .lit rfl) fun _ => .lit rfl
  have hdecode := (hctx.names.neutral_converter id).1
  refine (beanClass_gives hctx id).bind fun bean hb => ?_
  refine (protoClass_gives hctx id).bind fun proto hp => ?_
  refine (refer_gives herror).bind fun parseError he => Yields.pure (.braced ?_ ?_)
  · intro a
    repeat' apply Turn.append
    all_goals first | exact Neutral.turn (by assumption) | exact .lit rfl
  · have hreturn : Balanced [.line ("return " ++ (s.names.message id).converter.decode ++ "(" ++
        proto ++ ".parseFrom(data));")] := by
      refine .line fun a => ?_
      repeat' apply Turn.append
      all_goals first | exact Neutral.turn (by assumption) | exact .lit rfl
    have hcatch : ∀ a, Turn ("\x7d catch (" ++ parseError ++ " e) \x7b") ('\x7b' :: a)
        ('\x7b' :: a) :=
      fun a => .append (.append (.lit rfl) he.turn) (.lit rfl)
    have hhandler : Balanced [.line "e.printStackTrace();", .line "return null;"] :=
      .cons (.line fun _ => .lit rfl) (.line fun _ => .lit rfl)
    intro a
    exact .block (.code (.lit rfl)) (hreturn _) (.code (hcatch a))
      (.body (hhandler _) (.code (.lit rfl)) .nil)

end Decoding

section Encoding

include hctx

variable {m : Member} (hm : m.Proper)

include hm

theorem encodeScalar_balances (v : Scalar) : Balances (s.encodeScalar m v) := by
  have hstem := hm.names.accessor
  have hsource : Neutral ("bean." ++ m.names.field) :=
    Neutral.append (fun _ => .lit rfl) (neutral_of_isIdentifier hm.names.field)
  refine (encoded_gives hctx hsource (.scalar v)).bind fun value hv => Yields.pure ?_
  have hstatement : Neutral ("builder.set" ++ m.names.accessor ++ "(" ++ value ++ ");") := by
    intro a
    repeat' apply Turn.append
    all_goals first | exact Neutral.turn (by assumption) | exact .lit rfl
  split_ifs
  · exact balanced_guarded hsource hstatement
  · exact .line hstatement

theorem encodeReference_balances (v : Value) : Balances (s.encodeReference m v) := by
  have hstem := hm.names.accessor
  have hend := neutral_accessorEnd (s := s) v
  have hsource : Neutral ("bean." ++ m.names.field) :=
    Neutral.append (fun _ => .lit rfl) (neutral_of_isIdentifier hm.names.field)
  refine (encoded_gives hctx hsource v).bind fun value hv => Yields.pure ?_
  refine balanced_guarded hsource fun a => ?_
  repeat' apply Turn.append
  all_goals first | exact Neutral.turn (by assumption) | exact .lit rfl

theorem encodeList_balances (v : Value) : Balances (s.encodeList m v) := by
  have hstem := hm.names.accessor
  have hfield := neutral_of_isIdentifier hm.names.field
  have hend := neutral_accessorEnd (s := s) v
  have hitem : Neutral "item" := fun _ => .lit rfl
  unfold Site.encodeList
  split
  case h_4 =>
    refine Yields.pure (balanced_guarded (Neutral.append (fun _ => .lit rfl) hfield) fun a => ?_)
    repeat' apply Turn.append
    all_goals first | exact Neutral.turn (by assumption) | exact .lit rfl
  all_goals
    refine (Value.type_gives hctx true _).bind fun element he => ?_
    refine (encoded_gives hctx hitem _).bind fun item hi => Yields.pure ?_
    refine .braced ?_ (.braced ?_ (.line ?_))
    all_goals
      intro a
      repeat' apply Turn.append
      all_goals first | exact Neutral.turn (by assumption) | exact .lit rfl

theorem encodeMap_balances (key : Scalar) (v : Value) : Balances (s.encodeMap m key v) := by
  have hstem := hm.names.accessor
  have hfield := neutral_of_isIdentifier hm.names.field
  have hend := neutral_accessorEnd (s := s) v
  have hkey := neutral_boxed key
  have hentry : (mapClass.nested "Entry").Neutral :=
    (neutral_library (fun _ => .lit rfl) fun _ => .lit rfl).nested fun _ => .lit rfl
  have hvalue : Neutral "entry.getValue()" := fun _ => .lit rfl
  unfold Site.encodeMap
  split
  case h_4 =>
    refine Yields.pure (balanced_guarded (Neutral.append (fun _ => .lit rfl) hfield) fun a => ?_)
    repeat' apply Turn.append
    all_goals first | exact Neutral.turn (by assumption) | exact .lit rfl
  all_goals
    refine (refer_gives hentry).bind fun entry hn => ?_
    refine (Value.type_gives hctx true _).bind fun element he => ?_
    refine (encoded_gives hctx hvalue _).bind fun item hi => Yields.pure ?_
    refine .braced ?_ (.braced ?_ (.line ?_))
    all_goals
      intro a
      repeat' apply Turn.append
      all_goals first | exact Neutral.turn (by assumption) | exact .lit rfl

theorem encodeField_balances : Balances (s.encodeField m) := by
  unfold Site.encodeField
  split
  · exact encodeScalar_balances hctx hm _
  · exact encodeReference_balances hctx hm _
  · exact encodeReference_balances hctx hm _
  · exact encodeList_balances hctx hm _
  · exact encodeList_balances hctx hm _
  · exact encodeList_balances hctx hm _
  · exact encodeMap_balances hctx hm _ _
  · exact Yields.pure .nil
  · exact Yields.pure .nil

omit hm in
theorem encodeArm_gives {v : Variant} (hv : v.Proper) :
    Yields Imports.Tidy (s.encodeArm v) fun arm => ∀ a ∈ arm, Arm.Proper a := by
  have hstem := hv.member.names.accessor
  unfold Site.encodeArm
  split
  · exact Yields.pure (by simp)
  · next value _ =>
    have hend := neutral_accessorEnd (s := s) value
    have hgetter : Neutral ("bean." ++ v.names.getter ++ "()") :=
      (Neutral.append (fun _ => .lit rfl) hv.names.getter).append fun _ => .lit rfl
    refine (encoded_gives hctx hgetter value).bind fun encoded he => Yields.pure ?_
    have hset : Neutral ("builder.set" ++ v.member.names.accessor ++ s.accessorEnd value ++ "(" ++
        encoded ++ ");") := by
      intro a
      repeat' apply Turn.append
      all_goals first | exact Neutral.turn (by assumption) | exact .lit rfl
    rintro _ ⟨⟩
    refine ⟨hv.names.caseConstant, ?_⟩
    dsimp only
    split_ifs
    · intro a
      have htest : Turn ("    " ++ ("if (" ++ ("bean." ++ v.names.getter ++ "()") ++
          " != null) \x7b")) a ('\x7b' :: a) :=
        .append (.lit rfl) (.append (.append (.lit rfl) hgetter.turn) (.lit rfl))
      have hinner : Neutral ("    " ++ ("    " ++ ("builder.set" ++ v.member.names.accessor ++
          s.accessorEnd value ++ "(" ++ encoded ++ ");"))) :=
        Neutral.append (fun _ => .lit rfl) (Neutral.append (fun _ => .lit rfl) hset)
      have hclose : Turn ("    " ++ "\x7d") ('\x7b' :: a) a := .append (.lit rfl) (.lit rfl)
      exact .line (.code htest) (.line (.code hinner.turn) (.line (.code hclose) .nil))
    · exact .line (Neutral.append (fun _ => .lit rfl) hset)

omit hm in
theorem encodeItem_balances {item : Item} (h : item.Proper) : Balances (s.encodeItem item) := by
  cases item with
  | field m => exact encodeField_balances hctx h
  | union u =>
    have hselector : Neutral ("bean." ++ u.names.caseGetter ++ "()") :=
      (Neutral.append (fun _ => .lit rfl) (neutral_of_isIdentifier h.names.caseGetter)).append
        fun _ => .lit rfl
    refine (Yields.mapM fun v hv => encodeArm_gives hctx (h.variants v hv)).bind
      fun arms ha => Yields.pure ?_
    exact balanced_switchStep hselector (arms_proper ha)

omit hm in
theorem encodeMethod_balances (id : MessageId) {shape : Shape} (h : shape.Proper) :
    Yields Imports.Tidy (s.encodeMethod id shape) fun step => Balanced [step] := by
  have hencode := h.names.converter.encode
  refine (beanClass_gives hctx id).bind fun bean hb => ?_
  refine (protoClass_gives hctx id).bind fun proto hp => ?_
  refine (Yields.mapM fun i hi => encodeItem_balances hctx (h.items i hi)).bind
    fun items hitems => Yields.pure (.braced ?_ (.append (.append (.cons ?_ (.line ?_)) ?_) ?_))
  · intro a
    repeat' apply Turn.append
    all_goals first | exact Neutral.turn (by assumption) | exact .lit rfl
  · exact .braced (fun _ => .lit rfl) (.line fun _ => .lit rfl)
  · exact ((hp.append fun _ => .lit rfl).append hp).append fun _ => .lit rfl
  · exact balanced_of_forall₂ hitems
  · exact .line fun _ => .lit rfl

omit hm in
theorem bytesMethod_balances (id : MessageId) :
    Yields Imports.Tidy (s.bytesMethod id) fun step => Balanced [step] := by
  obtain ⟨-, hencode, hbytes⟩ := hctx.names.neutral_converter id
  refine (beanClass_gives hctx id).bind fun bean hb => Yields.pure (.braced ?_ (.line ?_))
  all_goals
    intro a
    repeat' apply Turn.append
    all_goals first | exact Neutral.turn (by assumption) | exact .lit rfl

end Encoding

section Methods

include hctx

theorem messageMethods_balances (id : MessageId) {shape : Shape} (h : shape.Proper) :
    Balances (s.messageMethods id shape) := by
  have hmethod : ∀ step, Balanced [step] → Balanced [step, .blank] := fun _ hs => .cons hs .blank
  refine Yields.optional (parseMethod_balances hctx id) hmethod .nil (fun parse hparse => ?_) _
  refine (decodeMethod_balances hctx id h).bind fun decode hdecode => ?_
  refine (encodeMethod_balances hctx id h).bind fun encode hencode => ?_
  refine Yields.optional (bytesMethod_balances hctx id) hmethod .nil
    (fun bytes hbytes => Yields.pure ?_) _
  exact ((hparse.append hdecode).append (.cons .blank (.cons hencode .blank))).append hbytes

theorem classSteps_balances {name : String} (hn : isIdentifier name.toList)
    {shapes : List (MessageId × Shape)} (h : ∀ p ∈ shapes, p.2.Proper) :
    Balances (s.classSteps name shapes) := by
  refine (Yields.mapM fun p hp => messageMethods_balances hctx p.1 (h p hp)).bind
    fun methods hm => Yields.pure ?_
  have hhead : Neutral ("public class " ++ name ++ "") :=
    (Neutral.append (fun _ => .lit rfl) (neutral_of_isIdentifier hn)).append neutral_empty
  exact .declared hn hhead (balanced_of_forall₂ hm)

end Methods

end ProtoJava.Converter
