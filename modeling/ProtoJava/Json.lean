import ProtoJava.Text.Quoted
import ProtoJava.Text.Pieces

/-! # JSON

JSON values with their members in order, and their indented text: one element to a line, two
spaces to a level.
-/

namespace ProtoJava

inductive Json
  | null
  | bool (b : Bool)
  | int (n : Int)
  | string (s : String)
  | array (items : List Json)
  | object (members : List (String × Json))
deriving Inhabited

namespace Json

def spaces (n : Nat) : String :=
  String.ofList (List.replicate n ' ')

/-- Lines between brackets, closed at the level `indent`. -/
def bracketed (opening closing : String) (indent : Nat) (items : List String) : String :=
  if items.isEmpty then opening ++ closing
  else opening ++ "\n" ++ Text.joined ",\n" (items.map (spaces (indent + 2) ++ ·)) ++ "\n" ++
    spaces indent ++ closing

mutual

/-- The text of a value that starts at the level `indent`. -/
def prettyAt (indent : Nat) : Json → String
  | null => "null"
  | bool b => if b then "true" else "false"
  | int n => toString n
  | string s => Text.quoted s
  | array items => bracketed "[" "]" indent (prettyItems indent items)
  | object members => bracketed "\x7b" "\x7d" indent (prettyMembers indent members)

/-- The texts of array items one level below `indent`. -/
def prettyItems (indent : Nat) : List Json → List String
  | [] => []
  | v :: r => prettyAt (indent + 2) v :: prettyItems indent r

/-- The texts of object members one level below `indent`. -/
def prettyMembers (indent : Nat) : List (String × Json) → List String
  | [] => []
  | m :: r => prettyMember indent m :: prettyMembers indent r

/-- The text of one object member. -/
def prettyMember (indent : Nat) : String × Json → String
  | (key, v) => Text.quoted key ++ ": " ++ prettyAt (indent + 2) v

end

def pretty (v : Json) : String :=
  prettyAt 0 v

def ofOption {α : Type} (f : α → Json) : Option α → Json
  | none => null
  | some a => f a

def nat (n : Nat) : Json :=
  int n

def ofList {α : Type} (f : α → Json) (l : List α) : Json :=
  array (l.map f)

end Json

end ProtoJava
