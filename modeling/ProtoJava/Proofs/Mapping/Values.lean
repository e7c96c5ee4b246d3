import ProtoJava.Proofs.Mapping.Referring

/-! # Texts of values

What an unset value of a field reads as, and how the value of an explicit default is written.
-/

namespace ProtoJava.Mapping

open Java

/-- The text of what an unset value reads as: for an enum it is its first constant. -/
inductive Zero (ctx : Context) : Value → String → Prop
  | double : Zero ctx (.scalar .double) "0.0d"
  | float : Zero ctx (.scalar .float) "0.0f"
  | int32 : Zero ctx (.scalar .int32) "0"
  | int64 : Zero ctx (.scalar .int64) "0L"
  | uint32 : Zero ctx (.scalar .uint32) "0"
  | uint64 : Zero ctx (.scalar .uint64) "0L"
  | bool : Zero ctx (.scalar .bool) "false"
  | string : Zero ctx (.scalar .string) "\"\""
  | bytes : Zero ctx (.scalar .bytes) "null"
  | message (id : Schema.MessageId) : Zero ctx (.message id) "null"
  | enum {id : Schema.EnumId} {type first : String}
    (hf : (ctx.names.enumNames id).constants.head? = some first)
    (ht : (ctx.names.enumClass ctx.graph id).IsCalled type) :
    Zero ctx (.enum id) (type ++ "." ++ first)
  | empty {id : Schema.EnumId} (hn : (ctx.names.enumNames id).constants = []) :
    Zero ctx (.enum id) "null"

/-- The text of the value of an explicit default. -/
inductive Default.Written (ctx : Context) : Default → String → Prop
  | literal (text : String) : Written ctx (.literal text) text
  | enum {id : Schema.EnumId} {type : String} (number : Int)
    (ht : (ctx.names.enumClass ctx.graph id).IsCalled type) :
    Written ctx (.enum id number) (type ++ ".forNumber(" ++ toString number ++ ")")

variable (ctx : Context)

theorem Value.zero_yields (v : Value) : Yields AnyImports (v.zero ctx) (Zero ctx v) := by
  cases v with
  | scalar s =>
    refine Yields.pure ?_
    cases s <;> constructor
  | message id => exact Yields.pure (.message id)
  | enum id =>
    show Yields AnyImports (ctx.firstConstant id) _
    rw [Context.firstConstant]
    split
    · next hn => exact Yields.pure (.empty hn)
    · next first _ hn =>
      exact (yields_isCalled _).bind fun type ht => Yields.pure (.enum (by rw [hn]; rfl) ht)

/-- There is a value for the constant of a default just if there is a default. -/
theorem Property.defaultValue_yields (p : Property) :
    Yields AnyImports (p.defaultValue ctx) (Option.Rel (Default.Written ctx) p.default) := by
  rw [Property.defaultValue]
  split
  · next h => exact Yields.pure (h ▸ .none)
  · next text h => exact Yields.pure (h ▸ .some (.literal text))
  · next id number h =>
    exact (yields_isCalled _).bind fun type ht => Yields.pure (h ▸ .some (.enum number ht))

end ProtoJava.Mapping
