import ProtoJava.Mapping.Shape

/-! # Outlines

Everything that becomes a class of a file, as a tree: messages with their fields resolved, and the
enums, extensions and messages declared in them.
-/

namespace ProtoJava.Bean

open Mapping (Context Property Shape)
open Naming (ExtensionNames EnumNames)

/-- A field that extends the message called `target`. -/
structure Extension where
  property : Property
  names : ExtensionNames
  target : String

structure EnumShape where
  type : Schema.EnumType
  names : EnumNames

/-- A message with all that is declared in it; map entries are left out. -/
inductive Outline
  | node (shape : Shape) (extensions : List Extension) (enums : List EnumShape)
      (nested : List Outline)

/-- The constants of an extension; a field that extends nothing has none. -/
def Extension.of (ctx : Context) (m : Option Schema.Message) (f : Schema.Field)
    (names : ExtensionNames) : Except Error (Option Extension) := do
  let p ← ctx.classify m f
  match p.kind with
  | .extension extendee _ _ => return some ⟨p, names, (ctx.graph.message extendee).fullName⟩
  | _ => return none

/-- The extensions of a list of fields with their names. -/
def extensionsOf (ctx : Context) (m : Option Schema.Message) (fields : List Schema.Field)
    (names : List ExtensionNames) : Except Error (List Extension) := do
  let extensions ← (fields.zip names).mapM fun (f, n) => Extension.of ctx m f n
  return extensions.filterMap id

/-- Enum `i` of a file. -/
def EnumShape.of (ctx : Context) (file i : Nat) : EnumShape :=
  ⟨ctx.graph.enumType ⟨file, i⟩, ctx.names.enumNames ⟨file, i⟩⟩

/-- Positions of the messages that get a class in the class of message `i`. -/
def nestedClasses (f : Schema.File) (i : Nat) : List Nat :=
  (f.message i).nested.filter fun n =>
    !(f.message n).mapEntry && decide (i < n ∧ n < f.messages.length)

theorem lt_of_mem_nestedClasses {f : Schema.File} {i n : Nat} (h : n ∈ nestedClasses f i) :
    i < n ∧ n < f.messages.length := by
  simp only [nestedClasses, List.mem_filter, Bool.and_eq_true, decide_eq_true_eq] at h
  exact h.2.2

/-- The outline of message `i` of a file, if all fields in it can be resolved. -/
def Outline.of (ctx : Context) (file i : Nat) : Except Error Outline := do
  let shape ← Shape.of ctx ⟨file, i⟩
  let extensions ←
    extensionsOf ctx (some shape.message) shape.message.extensions shape.names.extensions
  let nested ← (nestedClasses (ctx.graph.file file) i).attach.mapM fun ⟨n, _⟩ =>
    Outline.of ctx file n
  return .node shape extensions (shape.message.enums.map (EnumShape.of ctx file)) nested
  termination_by (ctx.graph.file file).messages.length - i
  decreasing_by
    have := lt_of_mem_nestedClasses (by assumption)
    omega

/-- The names of the types of a union. -/
def unionClassNames (u : Naming.UnionNames) : List String :=
  u.iface :: u.caseEnum :: u.variants.map (·.wrapper)

/-- The name of the class of an outline. -/
def Outline.className : Outline → String
  | .node shape _ _ _ => shape.names.className

mutual

/-- The names of all classes inside the class of an outline. -/
def Outline.innerNames : Outline → List String
  | .node shape _ enums nested =>
    shape.names.unions.flatMap (fun u => (u.map unionClassNames).getD []) ++
      enums.map (·.names.className) ++ Outline.namesOfAll nested

/-- The names of classes and of all classes inside them. -/
def Outline.namesOfAll : List Outline → List String
  | [] => []
  | o :: r => o.className :: (o.innerNames ++ Outline.namesOfAll r)

end

end ProtoJava.Bean
