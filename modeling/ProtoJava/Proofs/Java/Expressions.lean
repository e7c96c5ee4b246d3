import Mathlib.Data.List.Nodup
import ProtoJava.Word

/-! # Expressions

The expressions and statements that the methods of generated classes are made of: how they are
written, and what they evaluate to where names have a meaning.
-/

namespace ProtoJava.Java

/-- What an expression evaluates to. -/
inductive Datum
  | null
  | number (n : Int)
  | constant (enum name : String)
  /-- An object of a class with one field. -/
  | object (type field : String) (value : Datum)
  /-- What a text evaluates to that names nothing of the class it stands in. -/
  | text (text : String)
deriving Repr, DecidableEq, Inhabited

namespace Datum

def isObject (type : String) : Datum → Bool
  | object t _ _ => t == type
  | _ => false

/-- The field `x` of an object of a class. -/
def field? (type x : String) : Datum → Option Datum
  | object t f value => if t = type ∧ f = x then some value else none
  | _ => none

end Datum

inductive Expr
  | null
  | name (x : String)
  | constant (enum name : String)
  | text (text : String)
  | copy (e : Expr)
  | ifNull (e yes no : Expr)
  | ifInstance (e : Expr) (type : String) (yes no : Expr)
  /-- A field of what an expression is cast to. -/
  | field (type : String) (e : Expr) (x : String)
  | call (e : Expr) (method : String)
  | new (type : String) (e : Expr)
deriving Repr, DecidableEq, Inhabited

/-- What names mean where an expression stands. -/
structure Env where
  name : String → Option Datum
  constant : String → String → Option Datum
  /-- A new object of a class, for one argument. -/
  make : String → Datum → Option Datum
  /-- The answer of a method without parameters. -/
  ask : Datum → String → Option Datum

namespace Expr

/-- The text of an expression. -/
def source : Expr → String
  | null => "null"
  | name x => x
  | constant enum c => enum ++ "." ++ c
  | text t => t
  | copy e => e.source ++ ".clone()"
  | ifNull e yes no => e.source ++ " == null ? " ++ yes.source ++ " : " ++ no.source
  | ifInstance e type yes no =>
    e.source ++ " instanceof " ++ type ++ " ? " ++ yes.source ++ " : " ++ no.source
  | field type e x => "((" ++ type ++ ") " ++ e.source ++ ")." ++ x
  | call e method => e.source ++ "." ++ method ++ "()"
  | new type e => "new " ++ type ++ "(" ++ e.source ++ ")"

/-- The value of an expression, if it has one. -/
def eval (env : Env) : Expr → Option Datum
  | null => some .null
  | name x => env.name x
  | constant enum c => env.constant enum c
  | text t => some (.text t)
  | copy e => e.eval env
  | ifNull e yes no => do if (← e.eval env) = .null then yes.eval env else no.eval env
  | ifInstance e type yes no => do
    if (← e.eval env).isObject type then yes.eval env else no.eval env
  | field type e x => do (← e.eval env).field? type x
  | call e method => do env.ask (← e.eval env) method
  | new type e => do env.make type (← e.eval env)

end Expr

/-- The one statement of a method. -/
inductive Stmt
  | assign (field : String) (e : Expr)
  | ret (e : Expr)
deriving Repr, DecidableEq, Inhabited

def Stmt.source : Stmt → String
  | assign x e => "this." ++ x ++ " = " ++ e.source ++ ";"
  | ret e => "return " ++ e.source ++ ";"

/-- The only element of a list. -/
def only {α : Type} : List α → Option α
  | [a] => some a
  | _ => none

section Only

variable {α : Type} {l : List α} {key : α → Option String} {x : String} {y : α}

/-- The only element with a key. -/
theorem only_filter (hy : y ∈ l) (hk : key y = some x) (hc : (l.filterMap key).count x = 1) :
    only (l.filter fun z => key z == some x) = some y := by
  rw [List.count_filterMap, List.countP_eq_length_filter, List.length_eq_one_iff] at hc
  obtain ⟨z, hz⟩ := hc
  have hmem : y ∈ l.filter fun z => key z == some x := List.mem_filter.mpr ⟨hy, by simp [hk]⟩
  rw [hz, List.mem_singleton] at hmem
  rw [hz, hmem]
  rfl

theorem mem_filterMap_of_only (h : only (l.filter fun z => key z == some x) = some y) :
    x ∈ l.filterMap key := by
  have hy : y ∈ l.filter fun z => key z == some x := by
    unfold only at h
    split at h
    · next hz => simp [hz, Option.some.inj h]
    · cases h
  obtain ⟨hy, hk⟩ := List.mem_filter.mp hy
  exact List.mem_filterMap.mpr ⟨y, hy, beq_iff_eq.mp hk⟩

/-- Among entries with different keys, each is the only one with its key. -/
theorem only_filter_fst {β : Type} {l : List (String × β)} (hd : (l.map (·.1)).Nodup)
    {c : String × β} (hc : c ∈ l) : only (l.filter (·.1 == c.1)) = some c := by
  have hcount : (l.filterMap fun z => some z.1).count c.1 = 1 := by
    rw [List.filterMap_eq_map']
    exact List.count_eq_one_of_mem hd (List.mem_map_of_mem hc)
  simpa using only_filter hc rfl hcount

end Only

end ProtoJava.Java
