/-! # Positions in bytes

Lengths of texts in UTF-8, and the part of a text between two byte positions.
-/

namespace ProtoJava.Text

/-- The number of bytes a text takes. -/
def utf8Size : List Char → Nat
  | [] => 0
  | c :: r => c.utf8Size + utf8Size r

/-- The text from byte `n` on, if a character starts there or the text ends there. -/
def dropBytes? : Nat → List Char → Option (List Char)
  | 0, cs => some cs
  | _ + 1, [] => none
  | n + 1, c :: r => if c.utf8Size ≤ n + 1 then dropBytes? (n + 1 - c.utf8Size) r else none

/-- The first `n` bytes, if they are whole characters. -/
def takeBytes? : Nat → List Char → Option (List Char)
  | 0, _ => some []
  | _ + 1, [] => none
  | n + 1, c :: r =>
    if c.utf8Size ≤ n + 1 then (takeBytes? (n + 1 - c.utf8Size) r).map (c :: ·) else none

/-- The text between two byte positions, if they are in order and between characters. -/
def slice? (start stop : Nat) (cs : List Char) : Option (List Char) :=
  if start ≤ stop then (dropBytes? start cs).bind (takeBytes? (stop - start)) else none

theorem utf8Size_append (a b : List Char) : utf8Size (a ++ b) = utf8Size a + utf8Size b := by
  induction a with
  | nil => simp [utf8Size]
  | cons c r ih => simp [utf8Size, ih, Nat.add_assoc]

theorem dropBytes?_append (a b : List Char) : dropBytes? (utf8Size a) (a ++ b) = some b := by
  induction a with
  | nil => simp [utf8Size, dropBytes?]
  | cons c r ih =>
    have hc : utf8Size (c :: r) = utf8Size r + (c.utf8Size - 1) + 1 := by
      have := c.utf8Size_pos
      simp only [utf8Size]
      omega
    have hs : utf8Size r + (c.utf8Size - 1) + 1 - c.utf8Size = utf8Size r := by
      have := c.utf8Size_pos
      omega
    have hle : c.utf8Size ≤ utf8Size r + (c.utf8Size - 1) + 1 := by omega
    rw [hc, List.cons_append, dropBytes?, if_pos hle, hs, ih]

theorem takeBytes?_append (a b : List Char) : takeBytes? (utf8Size a) (a ++ b) = some a := by
  induction a with
  | nil => simp [utf8Size, takeBytes?]
  | cons c r ih =>
    have hc : utf8Size (c :: r) = utf8Size r + (c.utf8Size - 1) + 1 := by
      have := c.utf8Size_pos
      simp only [utf8Size]
      omega
    have hs : utf8Size r + (c.utf8Size - 1) + 1 - c.utf8Size = utf8Size r := by
      have := c.utf8Size_pos
      omega
    have hle : c.utf8Size ≤ utf8Size r + (c.utf8Size - 1) + 1 := by omega
    rw [hc, List.cons_append, takeBytes?, if_pos hle, hs, ih]
    rfl

/-- A middle part is found at its byte positions. -/
theorem slice?_middle (a m b : List Char) :
    slice? (utf8Size a) (utf8Size a + utf8Size m) (a ++ (m ++ b)) = some m := by
  simp [slice?, dropBytes?_append, takeBytes?_append]

end ProtoJava.Text
