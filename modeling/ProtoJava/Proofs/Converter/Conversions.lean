import ProtoJava.Compile
import ProtoJava.Proofs.Bean.Items
import ProtoJava.Proofs.Converter.Statements

/-! # Conversions

The methods of a converter cover every field of a message, in both directions alike: a field on its
own by statements, the members of a union by the arms of a switch.
-/

namespace ProtoJava.Converter

open Bean (firstOf? item?_eq firstOf?_eq_some_iff)
open Java
open Mapping
open Naming (MessageNames UnionNames unionMembers)
open Schema (Message Field Oneof MessageId Graph)

namespace Site

end Site

section Fields

variable {s : Site} {shape : Shape} {m : Message} {n : MessageNames}

end Fields

section Methods

/-- Steps of a method with what a direction has for the items of a message. -/
structure Direction.Method (d : Direction) (s : Site) (id : MessageId) (shape : Shape)
    (steps : List Step) : Prop where
  plain : PlainAll steps
  ne_nil : steps ≠ []
  text : ∃ bean proto items, s.ClassesCalled id bean proto ∧
    List.Forall₂ d.ForItem shape.items items ∧
    textOf 1 steps = d.text shape.names.converter bean proto (textOf 2 items.flatten)

/-- A text in which such a method is found. -/
def Direction.Written (d : Direction) (s : Site) (id : MessageId) (shape : Shape)
    (text : String) : Prop :=
  ∃ steps, d.Method s id shape steps ∧ Within (textOf 1 steps) text

variable (s : Site) (id : MessageId) (shape : Shape)

end Methods

section Files

variable {s : Site} {shape : Shape} {id : MessageId}

end Files

end ProtoJava.Converter
