import Mathlib.Logic.Function.Basic
import ProtoJava.Proofs.Java.BareLines
import ProtoJava.Proofs.Java.Enums

/-! # Programs

The classes that tagged unions are made of, as programs: how their declarations are written, and
what their methods do. A name means something only where exactly one declaration has it.
-/

namespace ProtoJava.Java

/-- A method with one parameter, by its type and its name, or with none. -/
structure Method where
  /-- The declaration it is annotated with. -/
  path : Option Schema.Path := none
  type : String
  name : String
  param : Option (String × String) := none
  body : Stmt

namespace Method

def params (m : Method) : String :=
  match m.param with
  | some (type, name) => "(" ++ type ++ " " ++ name ++ ")"
  | none => "()"

def steps (m : Method) : List Step :=
  match m.path with
  | some path => [
    .annotated path ("public " ++ m.type ++ " ") m.name (m.params ++ " \x7b"),
    .body "\x7d" [.line m.body.source]]
  | none => [
    .block ("public " ++ m.type ++ " " ++ m.name ++ m.params ++ " \x7b") "\x7d"
      [.line m.body.source]]

/-- What a method without parameters returns. -/
def answer (m : Method) (env : Env) : Option Datum :=
  match m.param, m.body with
  | none, .ret e => e.eval env
  | _, _ => none

end Method

/-- A static field with a value. -/
structure Constant where
  /-- The declaration it is annotated with. -/
  path : Option Schema.Path := none
  type : String
  name : String
  value : String

def Constant.step (c : Constant) : Step :=
  match c.path with
  | some path =>
    .annotated path ("public static final " ++ c.type ++ " ") c.name (" = " ++ c.value ++ ";")
  | none => .line ("public static final " ++ c.type ++ " " ++ c.name ++ " = " ++ c.value ++ ";")

/-- The constants of an enum, up to the end of their list. -/
def constantLines : List (String × Int) → List Step
  | [] => []
  | [(c, n)] => [.line (c ++ "(" ++ toString n ++ ");")]
  | (c, n) :: r => .line (c ++ "(" ++ toString n ++ "),") :: constantLines r

/-- The enum that tells a case. -/
def NumberedEnum.caseStep (e : NumberedEnum) : Step :=
  .block ("public enum " ++ e.name ++ " \x7b") "\x7d"
    (constantLines e.constants ++ [.blank] ++ e.members)

/-- A class with one field, a constructor for it and a method that tells the case. -/
structure Wrapper where
  name : String
  iface : String
  path : Schema.Path
  type : String
  field : String
  /-- The parameter of the constructor. -/
  param : String
  construct : Stmt
  tell : Method
  /-- What its text form is. -/
  shown : String

def Wrapper.step (w : Wrapper) : Step :=
  .block ("public static final class " ++ w.name ++ " implements " ++ w.iface ++ " \x7b") "\x7d" (
    [.annotated w.path ("public final " ++ w.type ++ " ") w.field ";", .blank,
      .block ("public " ++ w.name ++ "(" ++ w.type ++ " " ++ w.param ++ ") \x7b") "\x7d"
        [.line w.construct.source],
      .blank, .line "@Override"] ++ w.tell.steps ++
    [.blank, .line "@Override",
      .block "public String toString() \x7b" "\x7d" [.line ("return " ++ w.shown ++ ";")]])

/-- A declaration in a class. -/
inductive Decl
  | constant (c : Constant)
  | caseEnum (e : NumberedEnum)
  /-- An interface with one method. -/
  | iface (name type getter : String)
  | wrapper (w : Wrapper)
  | field (path : Schema.Path) (type name trail : String)
  | method (m : Method)
  /-- Another class or enum. -/
  | nested (path : Schema.Path) (lead name : String) (body : List Step)
  /-- The text form. -/
  | shown (body : List Step)

namespace Decl

def steps : Decl → List Step
  | constant c => [c.step]
  | caseEnum e => [e.caseStep]
  | iface name type getter =>
    [.block ("public interface " ++ name ++ " \x7b") "\x7d"
      [.line (type ++ " " ++ getter ++ "();")]]
  | wrapper w => [w.step]
  | field path type name trail => [.annotated path ("public " ++ type ++ " ") name trail]
  | method m => m.steps
  | nested path lead name body => [.annotated path lead name " \x7b", .body "\x7d" body]
  | shown body => [.block "public String toString() \x7b" "\x7d" body]

/-- The name of a class, an interface or an enum. -/
def typeName : Decl → Option String
  | caseEnum e => some e.name
  | iface name _ _ | nested _ _ name _ => some name
  | wrapper w => some w.name
  | _ => none

def methodName : Decl → Option String
  | method m => some m.name
  | shown _ => some "toString"
  | _ => none

/-- The name of a field or a constant. -/
def variableName : Decl → Option String
  | constant c => some c.name
  | field _ _ name _ => some name
  | _ => none

/-- The name of a class that implements an interface. -/
def implementing (iface : String) : Decl → Option String
  | wrapper w => if w.iface = iface then some w.name else none
  | _ => none

end Decl

/-- Whether a step declares nothing: a comment, a blank line, or a mark on what follows. -/
def Step.isRemark : Step → Bool
  | .blank | .comment _ => true
  | .line text => text.toList.take 2 == ['/', '/'] || text.toList.head? == some '@'
  | _ => false

/-- Steps are read as declarations. Nothing is passed over but remarks, so all that is declared is
read. -/
inductive Reads : List Step → List Decl → Prop
  | nil : Reads [] []
  | remark {s : Step} {r : List Step} {ds : List Decl} (hs : s.isRemark) (hr : Reads r ds) :
    Reads (s :: r) ds
  | cons (d : Decl) {r : List Step} {ds : List Decl} (hr : Reads r ds) :
    Reads (d.steps ++ r) (d :: ds)

namespace Reads

variable {a b : List Step} {ds es : List Decl}

theorem append (ha : Reads a ds) (hb : Reads b es) : Reads (a ++ b) (ds ++ es) := by
  induction ha with
  | nil => exact hb
  | remark hs _ ih => exact .remark hs ih
  | cons d _ ih =>
    rw [List.append_assoc]
    exact .cons d ih

theorem single (d : Decl) : Reads d.steps [d] := by
  have h : Reads (d.steps ++ []) [d] := .cons d .nil
  rwa [List.append_nil] at h

theorem remarks (h : ∀ s ∈ a, s.isRemark) : Reads a [] := by
  induction a with
  | nil => exact .nil
  | cons s a ih =>
    rw [List.forall_mem_cons] at h
    exact .remark h.1 (ih h.2)

end Reads

/-- Where the steps of a class stand among other steps: as they are, or in another class. -/
inductive Encloses (part : List Step) : List Step → Prop
  | here (before after : List Step) : Encloses part (before ++ part ++ after)
  | inside {steps : List Step} (before : List Step) (footer : String) (after : List Step)
    (h : Encloses part steps) : Encloses part (before ++ .body footer steps :: after)

namespace Encloses

variable {part steps : List Step}

theorem self (part : List Step) : Encloses part part := by
  have h : Encloses part ([] ++ part ++ []) := .here _ _
  rwa [List.nil_append, List.append_nil] at h

theorem around (h : Encloses part steps) (before after : List Step) :
    Encloses part (before ++ steps ++ after) := by
  cases h with
  | here b a =>
    have h : Encloses part (before ++ b ++ part ++ (a ++ after)) := .here _ _
    simpa [List.append_assoc] using h
  | inside b footer a h =>
    have h := inside (before ++ b) footer (a ++ after) h
    simpa [List.append_assoc] using h

theorem append (h : Encloses part steps) (after : List Step) : Encloses part (steps ++ after) :=
  h.around [] after

theorem prepend (h : Encloses part steps) (before : List Step) :
    Encloses part (before ++ steps) := by
  have h := h.around before []
  rwa [List.append_nil] at h

theorem trans {inner : List Step} (h : Encloses inner part) (h' : Encloses part steps) :
    Encloses inner steps := by
  induction h' with
  | here before after => exact h.around before after
  | inside before footer after _ ih => exact .inside before footer after ih

theorem declared (h : Encloses part steps) (path : Schema.Path) (lead name trail : String) :
    Encloses part (declared path lead name trail steps) :=
  inside [.annotated path lead name (trail ++ " \x7b")] "\x7d" [] h

end Encloses

/-- A class by what is declared in it. -/
abbrev Program := List Decl

namespace Program

/-- The declaration that a name means, if only one has it. -/
def named (p : Program) (key : Decl → Option String) (x : String) : Option Decl :=
  only (p.filter fun d => key d == some x)

def enumConstant (p : Program) (enum c : String) : Option Datum :=
  match p.named Decl.typeName enum with
  | some (.caseEnum e) => if c ∈ e.constants.map (·.1) then some (.constant enum c) else none
  | _ => none

/-- The meaning of names in a wrapper, whose code makes no objects and asks none. -/
def innerEnv (p : Program) (name : String → Option Datum) : Env where
  name
  constant := p.enumConstant
  make _ _ := none
  ask _ _ := none

/-- A new object of a wrapper. -/
def construct (p : Program) (type : String) (v : Datum) : Option Datum :=
  match p.named Decl.typeName type with
  | some (.wrapper w) =>
    match w.construct with
    | .assign x e =>
      if x = w.field then
        (e.eval (p.innerEnv fun n => if n = w.param then some v else none)).map (.object type x)
      else none
    | .ret _ => none
  | _ => none

/-- What an object of a wrapper answers. -/
def ask (p : Program) (d : Datum) (method : String) : Option Datum :=
  match d with
  | .object type x v =>
    match p.named Decl.typeName type with
    | some (.wrapper w) =>
      if w.tell.name = method then
        w.tell.answer (p.innerEnv fun n => if n = x then some v else none)
      else none
    | _ => none
  | _ => none

def env (p : Program) (name : String → Option Datum) : Env where
  name
  constant := p.enumConstant
  make := p.construct
  ask := p.ask

/-- The value of a field or a constant, where `fields` are the values of fields. -/
def value (p : Program) (fields : String → Datum) (x : String) : Option Datum :=
  match p.named Decl.variableName x with
  | some (.constant c) => some (.text c.value)
  | some (.field _ _ _ _) => some (fields x)
  | _ => none

/-- Whether a name means a field. -/
def isField (p : Program) (x : String) : Bool :=
  match p.named Decl.variableName x with
  | some (.field _ _ _ _) => true
  | _ => false

/-- What a getter returns. -/
def get (p : Program) (fields : String → Datum) (method : String) : Option Datum :=
  match p.named Decl.methodName method with
  | some (.method m) => m.answer (p.env (p.value fields))
  | _ => none

/-- The values of fields after a setter. -/
def set (p : Program) (fields : String → Datum) (method : String) (v : Datum) :
    Option (String → Datum) :=
  match p.named Decl.methodName method with
  | some (.method { param := some (_, param), body := .assign x e, .. }) =>
    if p.isField x then
      (e.eval (p.env fun n => if n = param then some v else p.value fields n)).map
        (Function.update fields x)
    else none
  | _ => none

end Program

/-- A source file with steps on it, apart from what stands around them. -/
def Artifact.Has (a : Artifact) (part : List Step) : Prop :=
  ∃ prologue steps, bareLines a.content.toList = prologue ++ bareOf remarkLines steps ∧
    Encloses part steps

theorem Artifact.Has.of_encloses {a : Artifact} {part inner : List Step} (h : a.Has part)
    (hi : Encloses inner part) : a.Has inner := by
  obtain ⟨prologue, steps, hlines, hpart⟩ := h
  exact ⟨prologue, steps, hlines, hi.trans hpart⟩

/-- A source file with the class of a declaration in it, as a program. -/
def Artifact.HasClass (a : Artifact) (path : Schema.Path) (name : String) (p : Program) : Prop :=
  ∃ lead body, a.Has [.annotated path lead name " \x7b", .body "\x7d" body] ∧ Reads body p

end ProtoJava.Java
