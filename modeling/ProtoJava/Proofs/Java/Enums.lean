import ProtoJava.Java.Snippets
import ProtoJava.Proofs.Java.Expressions
import ProtoJava.Proofs.Lookup

/-! # Enums of numbers

An enum of numbered constants as a program. Its constructor keeps the number of a constant, a method
tells that, and another one looks a constant up by a switch over numbers.
-/

namespace ProtoJava.Java

/-- A switch over a number that returns an expression for each label. -/
structure Lookup where
  subject : String
  cases : List (Int × Expr)
  others : Expr
deriving Repr, DecidableEq, Inhabited

namespace Lookup

def step (l : Lookup) : Step :=
  .block ("switch (" ++ l.subject ++ ") \x7b") "\x7d" (
    (l.cases.map fun c => .line ("case " ++ toString c.1 ++ ": return " ++ c.2.source ++ ";")) ++
      [.line ("default: return " ++ l.others.source ++ ";")])

/-- What is returned: the first case with the number, or the default. -/
def eval (l : Lookup) (env : Env) : Option Datum :=
  match env.name l.subject with
  | some (.number n) => ((l.cases.lookup n).getD l.others).eval env
  | _ => none

end Lookup

/-- An enum of numbered constants. -/
structure NumberedEnum where
  name : String
  constants : List (String × Int)
  /-- The statement of the constructor. -/
  construct : Stmt
  /-- The statement of the method that tells the number of a constant. -/
  tell : Stmt
  /-- The statement of the method that looks a constant up. -/
  lookup : Lookup
deriving Repr, DecidableEq, Inhabited

namespace NumberedEnum

/-- What stands after the constants. -/
def members (e : NumberedEnum) : List Step := [
  .line "private final int number;",
  .blank,
  .block (e.name ++ "(int number) \x7b") "\x7d" [.line e.construct.source],
  .blank,
  .block "public int getNumber() \x7b" "\x7d" [.line e.tell.source],
  .blank,
  .block ("public static " ++ e.name ++ " forNumber(int number) \x7b") "\x7d" [e.lookup.step]]

/-- The meaning of names in the methods of an enum, where `number` is that of the field or the
parameter called so. Any other name is that of a constant, if only one is declared by it. -/
def env (e : NumberedEnum) (number : Datum) : Env where
  name x :=
    if x = "number" then some number
    else (only (e.constants.filter (·.1 == x))).map fun c => .constant e.name c.1
  constant _ _ := none
  make _ _ := none
  ask _ _ := none

/-- The number that a constant keeps, as the constructor stores it. -/
def stored (e : NumberedEnum) (constant : String) : Option Datum := do
  let (_, n) ← only (e.constants.filter (·.1 == constant))
  match e.construct with
  | .assign "number" x => x.eval (e.env (.number n))
  | _ => none

/-- What a constant tells as its number. -/
def getNumber (e : NumberedEnum) (constant : String) : Option Datum := do
  let number ← e.stored constant
  match e.tell with
  | .ret x => x.eval (e.env number)
  | .assign _ _ => none

/-- What is looked up for a number. -/
def forNumber (e : NumberedEnum) (number : Datum) : Option Datum :=
  e.lookup.eval (e.env number)

/-- An enum that keeps numbers as they are, and names a constant for each label. -/
def tabulated (name : String) (constants : List (String × Int)) (cases : List (Int × String))
    (others : Expr) : NumberedEnum where
  name
  constants
  construct := .assign "number" (.name "number")
  tell := .ret (.name "number")
  lookup := ⟨"number", cases.map fun c => (c.1, .name c.2), others⟩

section Tabulated

variable {name : String} {constants : List (String × Int)} {cases : List (Int × String)}
  {others : Expr}

theorem members_tabulated : (tabulated name constants cases others).members =
    numberMembers name ++ [.blank,
      forNumberMethod name cases [.line ("default: return " ++ others.source ++ ";")]] := by
  have hparameter : "(int number) \x7b" = "(int number)" ++ " \x7b" := rfl
  have hlookup : " forNumber(int number) \x7b" = " forNumber(int number)" ++ " \x7b" := rfl
  simp [members, tabulated, numberMembers, forNumberMethod, braced, Lookup.step, Stmt.source,
    Expr.source, hparameter, hlookup, String.append_assoc]

theorem labels_tabulated :
    (tabulated name constants cases others).lookup.cases.map (·.1) = cases.map (·.1) := by
  simp [tabulated]

theorem forNumber_tabulated (n : Int) :
    (tabulated name constants cases others).forNumber (.number n) =
      (((tabulated name constants cases others).lookup.cases.lookup n).getD others).eval
        ((tabulated name constants cases others).env (.number n)) :=
  rfl

/-- A label without a case is looked up to the default. -/
theorem forNumber_others {n : Int} (h : n ∉ cases.map (·.1)) :
    (tabulated name constants cases others).forNumber (.number n) =
      others.eval ((tabulated name constants cases others).env (.number n)) := by
  have hlookup : (tabulated name constants cases others).lookup.cases.lookup n = none := by
    refine lookup_eq_none ?_
    rwa [labels_tabulated]
  rw [forNumber_tabulated, hlookup, Option.getD_none]

variable (hd : (constants.map (·.1)).Nodup) (hnumber : "number" ∉ constants.map (·.1))

include hd

theorem getNumber_tabulated {c : String × Int} (hc : c ∈ constants) :
    (tabulated name constants cases others).getNumber c.1 = some (.number c.2) := by
  have honly : only (constants.filter (·.1 == c.1)) = some c := only_filter_fst hd hc
  simp [getNumber, stored, tabulated, honly, Expr.eval, env]

include hnumber

/-- A constant means itself, whatever the number is. -/
theorem eval_name {c : String} (hc : c ∈ constants.map (·.1)) (number : Datum) :
    (Expr.name c).eval ((tabulated name constants cases others).env number) =
      some (.constant name c) := by
  have hne : c ≠ "number" := fun he => hnumber (he ▸ hc)
  obtain ⟨entry, hentry, rfl⟩ := List.mem_map.mp hc
  have honly : only (constants.filter (·.1 == entry.1)) = some entry := only_filter_fst hd hentry
  simp [Expr.eval, env, hne, tabulated, honly]

/-- A label is looked up to the constant of its case. -/
theorem forNumber_case (hl : (cases.map (·.1)).Nodup) {n : Int} {c : String}
    (hn : (n, c) ∈ cases) (hc : c ∈ constants.map (·.1)) :
    (tabulated name constants cases others).forNumber (.number n) = some (.constant name c) := by
  have hlookup : (tabulated name constants cases others).lookup.cases.lookup n =
      some (.name c) := by
    apply lookup_of_mem
    · rwa [labels_tabulated]
    · exact List.mem_map.mpr ⟨(n, c), hn, rfl⟩
  rw [forNumber_tabulated, hlookup, Option.getD_some]
  exact eval_name hd hnumber hc _

end Tabulated

/-- An enum with the given constants, which have different names. It tells their numbers; its
look-up has different labels, and returns for each number the constant declared with it. -/
structure Numbers (e : NumberedEnum) (cs : List (String × Int)) : Prop where
  constants : e.constants = cs
  names : (cs.map (·.1)).Nodup
  labels : (e.lookup.cases.map (·.1)).Nodup
  getNumber : ∀ c ∈ cs, e.getNumber c.1 = some (.number c.2)
  forNumber : ∀ c ∈ cs, e.forNumber (.number c.2) = some (.constant e.name c.1)

end NumberedEnum

end ProtoJava.Java
