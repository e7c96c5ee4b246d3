import ProtoJava.Text.Hidden

/-! # Visible quoting

Quoting for messages: hidden characters are written by their code point, so a reader sees exactly
what the text holds.
-/

namespace ProtoJava.Text

/-- The spelling of one character inside `quote` marks. -/
def visibleChar (quote c : Char) : List Char :=
  if c = '\x00' then ['\\', '0']
  else if c = '\t' then ['\\', 't']
  else if c = '\r' then ['\\', 'r']
  else if c = '\n' then ['\\', 'n']
  else if c = '\\' ∨ c = quote then ['\\', c]
  else if isHidden c then ['\\', 'u', '\x7b'] ++ Nat.toDigits 16 c.toNat ++ ['\x7d']
  else [c]

/-- A text in double quotes. -/
def visible (s : String) : String :=
  "\"" ++ String.ofList (s.toList.flatMap (visibleChar '"')) ++ "\""

/-- A character in single quotes. -/
def visibleMark (c : Char) : String :=
  "\x27" ++ String.ofList (visibleChar '\x27' c) ++ "\x27"

end ProtoJava.Text
