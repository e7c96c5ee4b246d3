import ProtoJava.Mapping.Render

/-! # Shapes

A message with its names and what its fields become, and the items its sources are made of: each
field in order, with a union in the place of its first member.
-/

namespace ProtoJava.Mapping

open Schema (MessageId Oneof)
open Naming (MemberNames UnionNames VariantNames MessageNames)

/-- A field of a message. -/
structure Member where
  property : Property
  names : MemberNames
deriving Repr, DecidableEq, Inhabited

/-- A member of a union. -/
structure Variant where
  names : VariantNames
  member : Member
deriving Repr, DecidableEq, Inhabited

structure Union where
  oneof : Oneof
  names : UnionNames
  variants : List Variant
deriving Repr, DecidableEq, Inhabited

structure Shape where
  message : Schema.Message
  names : MessageNames
  members : List Member
  /-- An entry for each oneof; a synthetic one is no union. -/
  unions : List (Option Union)
deriving Repr, DecidableEq, Inhabited

/-- A oneof with its names and members. -/
def Union.of (members : List Member) (oneof : Oneof) (names : UnionNames) : Union where
  oneof
  names
  variants := names.variants.filterMap fun v => members[v.fieldIndex]?.map (Variant.mk v)

/-- The shape of a message whose fields are the given properties. -/
def Shape.ofProperties (m : Schema.Message) (names : MessageNames) (ps : List Property) : Shape :=
  let members := List.zipWith Member.mk ps names.fields
  { message := m, names, members
    unions := List.zipWith (fun o n => n.map (Union.of members o)) m.oneofs names.unions }

/-- The shape of message `id`, if its fields can be resolved. -/
def Shape.of (ctx : Context) (id : MessageId) : Except Error Shape := do
  let m := ctx.graph.message id
  let ps ← m.fields.mapM (ctx.classify (some m))
  return .ofProperties m (ctx.names.message id) ps

/-- A part of a message that has source text of its own. -/
inductive Item
  | field (m : Member)
  | union (u : Union)
deriving Repr, DecidableEq, Inhabited

/-- The item that stands in the place of a member, if there is one. -/
def Shape.item? (s : Shape) (m : Member) : Option Item :=
  match m.property.kind with
  | .variant oneof _ =>
    match s.unions[oneof]?.join with
    | some u =>
      if u.names.variants.head?.any (·.fieldIndex == m.property.field.index) then some (.union u)
      else none
    | none => none
  | _ => some (.field m)

def Shape.items (s : Shape) : List Item :=
  s.members.filterMap s.item?

end ProtoJava.Mapping
