/-! # Pieces of a text

Cutting a text at a separator, joining pieces again, and the lines of a text.
-/

namespace ProtoJava.Text

/-- Puts a character in front of pieces, where a separator starts a new piece. -/
def consPiece (sep c : Char) : List (List Char) → List (List Char)
  | [] => [[c]]
  | p :: ps => if c = sep then [] :: p :: ps else (c :: p) :: ps

/-- The pieces between occurrences of `sep`; a text without one is a single piece. -/
def pieces (sep : Char) (cs : List Char) : List (List Char) :=
  cs.foldr (consPiece sep) [[]]

/-- Cuts at the first occurrence of `sep`, if there is one. -/
def cut? (sep : Char) : List Char → Option (List Char × List Char)
  | [] => none
  | c :: r =>
    if c = sep then some ([], r)
    else (cut? sep r).map fun (a, b) => (c :: a, b)

/-- The text after the last occurrence of `sep`, or all of it. -/
def lastPiece (sep : Char) (cs : List Char) : List Char :=
  (pieces sep cs).getLastD []

/-- The pieces one after the other, with `sep` between neighbours. -/
def joined (sep : String) : List String → String
  | [] => ""
  | [s] => s
  | s :: t :: r => s ++ sep ++ joined sep (t :: r)

/-- Removes `suffix` from the end, if it is there. -/
def dropSuffix? (suffix cs : List Char) : Option (List Char) :=
  if suffix.isSuffixOf cs then some (cs.take (cs.length - suffix.length)) else none

/-- Removes `lead` from the start, if it is there. -/
def dropLead? (lead cs : List Char) : Option (List Char) :=
  if lead.isPrefixOf cs then some (cs.drop lead.length) else none

/-- The lines of a text, without their ends; a carriage return before a line feed belongs to it. -/
def lines (cs : List Char) : List (List Char) :=
  let ps := pieces '\n' cs
  let ended := ps.dropLast.map fun l => (dropSuffix? ['\r'] l).getD l
  match ps.getLastD [] with
  | [] => ended
  | open_ => ended ++ [open_]

theorem consPiece_ne_nil (sep c : Char) (ps : List (List Char)) : consPiece sep c ps ≠ [] := by
  unfold consPiece
  split
  · simp
  · split <;> simp

theorem pieces_nil (sep : Char) : pieces sep [] = [[]] := rfl

theorem pieces_cons (sep c : Char) (cs : List Char) :
    pieces sep (c :: cs) = consPiece sep c (pieces sep cs) := rfl

theorem pieces_ne_nil (sep : Char) (cs : List Char) : pieces sep cs ≠ [] := by
  cases cs with
  | nil => simp [pieces]
  | cons c r => exact consPiece_ne_nil sep c _

/-- The separator is in none of the pieces. -/
theorem not_mem_of_mem_pieces {sep : Char} {cs p : List Char} (h : p ∈ pieces sep cs) :
    sep ∉ p := by
  induction cs generalizing p with
  | nil => simp_all [pieces_nil]
  | cons c r ih =>
    obtain ⟨q, qs, hq⟩ := List.exists_cons_of_ne_nil (pieces_ne_nil sep r)
    rw [hq] at ih
    rw [pieces_cons, hq, consPiece] at h
    split at h
    · rcases List.mem_cons.mp h with rfl | h
      · exact List.not_mem_nil
      · exact ih h
    · next hc =>
      rcases List.mem_cons.mp h with rfl | h
      · intro hm
        rcases List.mem_cons.mp hm with he | hm
        · exact hc he.symm
        · exact ih List.mem_cons_self hm
      · exact ih (List.mem_cons_of_mem q h)

end ProtoJava.Text
