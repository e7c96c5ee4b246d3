/-! # Byte escapes

Decoding of C-style escapes into bytes: named escapes, one or two hexadecimal digits after `\x`,
and one to three octal digits up to 255. Anything malformed stands for itself.
-/

namespace ProtoJava.Text

/-- The byte a named escape denotes. -/
def namedEscape? : Char → Option UInt8
  | 'a' => some 0x07
  | 'b' => some 0x08
  | 'f' => some 0x0c
  | 'n' => some 0x0a
  | 'r' => some 0x0d
  | 't' => some 0x09
  | 'v' => some 0x0b
  | '\\' => some 0x5c
  | '"' => some 0x22
  | '\x27' => some 0x27
  | '?' => some 0x3f
  | _ => none

def isOctDigit (c : Char) : Bool :=
  '0' ≤ c && c ≤ '7'

def isHexDigit (c : Char) : Bool :=
  c.isDigit || ('a' ≤ c && c ≤ 'f') || ('A' ≤ c && c ≤ 'F')

/-- The value of a hexadecimal digit. -/
def digitValue (c : Char) : Nat :=
  if c.isDigit then c.toNat - 0x30
  else if 'a' ≤ c then c.toNat - 0x61 + 10
  else c.toNat - 0x41 + 10

/-- The value of a run of digits. -/
def digitsValue (radix : Nat) (ds : List Char) : Nat :=
  ds.foldl (fun n c => n * radix + digitValue c) 0

def utf8Bytes (cs : List Char) : List UInt8 :=
  cs.flatMap String.utf8EncodeChar

/-- The bytes denoted by what follows a backslash, and how many characters that is; `none` if
nothing there is an escape. -/
def escape? : List Char → Option (List UInt8 × Nat)
  | [] => none
  | e :: r =>
    match namedEscape? e with
    | some b => some ([b], 1)
    | none =>
      if e = 'x' ∨ e = 'X' then
        let ds := (r.take 2).takeWhile isHexDigit
        if ds = [] then some (utf8Bytes ['\\', e], 1)
        else some ([UInt8.ofNat (digitsValue 16 ds)], 1 + ds.length)
      else if isOctDigit e then
        let ds := ((e :: r).take 3).takeWhile isOctDigit
        let v := digitsValue 8 ds
        some (if v < 256 then [UInt8.ofNat v] else utf8Bytes ('\\' :: ds), ds.length)
      else none

/-- The bytes a text with escapes denotes. -/
def unescape : List Char → List UInt8
  | [] => []
  | c :: r =>
    if c = '\\' then
      match escape? r with
      | some (bytes, n) => bytes ++ unescape (r.drop n)
      | none => utf8Bytes [c] ++ unescape r
    else utf8Bytes [c] ++ unescape r
  termination_by cs => cs.length
  decreasing_by all_goals (simp only [List.length_cons, List.length_drop]; omega)

end ProtoJava.Text
