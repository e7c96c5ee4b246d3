import Mathlib.Tactic.IntervalCases
import ProtoJava.Proofs.Lookup
import ProtoJava.Text.ByteEscape

/-! # Texts with byte escapes

A text with escapes is a list of tokens, none of which reads into the next: decoding gives the bytes
of one after the other. So every list of bytes can be written with escapes and read back.
-/

namespace ProtoJava.Text

/-- The characters that name a byte after a backslash. -/
def escapeNames : List (Char × UInt8) := [
  ('a', 0x07), ('b', 0x08), ('f', 0x0c), ('n', 0x0a), ('r', 0x0d), ('t', 0x09), ('v', 0x0b),
  ('\\', 0x5c), ('"', 0x22), ('\x27', 0x27), ('?', 0x3f)]

/-- A hexadecimal digit, in lower or upper case. -/
structure HexDigit where
  value : Fin 16
  char : Char
  spelled : char = Nat.digitChar value ∨ char = (Nat.digitChar value).toUpper

/-- A character with which no escape starts. -/
structure StartsNoEscape (c : Char) : Prop where
  name : ∀ e ∈ escapeNames, e.1 ≠ c
  lower : c ≠ 'x'
  upper : c ≠ 'X'
  octal : ∀ d : Fin 8, c ≠ Nat.digitChar d

inductive Token
  | char (c : Char) (plain : c ≠ '\\')
  | named (e : Char × UInt8) (mem : e ∈ escapeNames)
  | hex (x : Char) (mark : x = 'x' ∨ x = 'X') (high low : HexDigit)
  | octal (a b c : Fin 8)
  /-- A backslash that starts no escape, and the character after it. -/
  | stray (c : Char) (none : StartsNoEscape c)

namespace Token

def text : Token → List Char
  | char c _ => [c]
  | named e _ => ['\\', e.1]
  | hex x _ high low => ['\\', x, high.char, low.char]
  | octal a b c => ['\\', Nat.digitChar a, Nat.digitChar b, Nat.digitChar c]
  | stray c _ => ['\\', c]

/-- The bytes that a token denotes; an octal escape over 255 and a stray backslash stand for
themselves. -/
def bytes : Token → List UInt8
  | char c _ => String.utf8EncodeChar c
  | named e _ => [e.2]
  | hex _ _ high low => [UInt8.ofNat (16 * high.value + low.value)]
  | octal a b c =>
    if 64 * a.val + 8 * b.val + c.val < 256 then [UInt8.ofNat (64 * a + 8 * b + c)]
    else utf8Bytes ['\\', Nat.digitChar a, Nat.digitChar b, Nat.digitChar c]
  | stray c _ => utf8Bytes ['\\', c]

end Token

section Digits

theorem HexDigit.isHexDigit (d : HexDigit) : isHexDigit d.char := by
  have hdigits : ∀ v : Fin 16, Text.isHexDigit (Nat.digitChar v) ∧
      Text.isHexDigit (Nat.digitChar v).toUpper := by
    decide
  rcases d.spelled with h | h
  · exact h ▸ (hdigits d.value).1
  · exact h ▸ (hdigits d.value).2

theorem HexDigit.digitValue (d : HexDigit) : digitValue d.char = d.value := by
  have hdigits : ∀ v : Fin 16, Text.digitValue (Nat.digitChar v) = v ∧
      Text.digitValue (Nat.digitChar v).toUpper = v := by
    decide
  rcases d.spelled with h | h
  · exact h ▸ (hdigits d.value).1
  · exact h ▸ (hdigits d.value).2

theorem octDigit (d : Fin 8) : isOctDigit (Nat.digitChar d) ∧ digitValue (Nat.digitChar d) = d ∧
    namedEscape? (Nat.digitChar d) = none ∧ Nat.digitChar d ≠ 'x' ∧ Nat.digitChar d ≠ 'X' := by
  revert d
  decide

theorem exists_octDigit {c : Char} (h : isOctDigit c) : ∃ d : Fin 8, c = Nat.digitChar d := by
  simp only [isOctDigit, Bool.and_eq_true, decide_eq_true_eq] at h
  have hlow : 48 ≤ c.toNat := h.1
  have hhigh : c.toNat ≤ 55 := h.2
  rw [← Char.ofNat_toNat c]
  generalize c.toNat = n at hlow hhigh
  refine ⟨⟨n - 48, by omega⟩, ?_⟩
  interval_cases n <;> rfl

theorem namedEscape?_eq_some_iff {c : Char} {b : UInt8} :
    namedEscape? c = some b ↔ (c, b) ∈ escapeNames := by
  constructor
  · intro h
    unfold namedEscape? at h
    split at h
    all_goals first
      | cases h; decide
      | cases h
  · intro h
    have hall : ∀ e ∈ escapeNames, namedEscape? e.1 = some e.2 := by decide
    exact hall (c, b) h

end Digits

section Escapes

variable {r : List Char}

theorem escape?_named {e : Char × UInt8} (he : e ∈ escapeNames) (r : List Char) :
    escape? (e.1 :: r) = some ([e.2], 1) := by
  rw [escape?, namedEscape?_eq_some_iff.mpr he]

theorem escape?_hex {x : Char} (hx : x = 'x' ∨ x = 'X') (high low : HexDigit) (r : List Char) :
    escape? (x :: high.char :: low.char :: r) =
      some ([UInt8.ofNat (16 * high.value + low.value)], 3) := by
  have hname : namedEscape? x = none := by
    rcases hx with rfl | rfl <;> rfl
  have hdigits : ((high.char :: low.char :: r).take 2).takeWhile isHexDigit =
      [high.char, low.char] := by
    simp [high.isHexDigit, low.isHexDigit]
  have hvalue : digitsValue 16 [high.char, low.char] = 16 * high.value + low.value := by
    simp only [digitsValue, List.foldl_cons, List.foldl_nil, high.digitValue, low.digitValue]
    omega
  rw [escape?, hname]
  simp only [if_pos hx, hdigits, hvalue]
  rfl

theorem escape?_octal (a b c : Fin 8) (r : List Char) :
    escape? (Nat.digitChar a :: Nat.digitChar b :: Nat.digitChar c :: r) =
      some ((Token.octal a b c).bytes, 3) := by
  obtain ⟨ha, hva, hname, hlower, hupper⟩ := octDigit a
  obtain ⟨hb, hvb, -⟩ := octDigit b
  obtain ⟨hc, hvc, -⟩ := octDigit c
  have hdigits : ((Nat.digitChar a :: Nat.digitChar b :: Nat.digitChar c :: r).take 3).takeWhile
      isOctDigit = [Nat.digitChar a, Nat.digitChar b, Nat.digitChar c] := by
    simp [ha, hb, hc]
  have hvalue : digitsValue 8 [Nat.digitChar a, Nat.digitChar b, Nat.digitChar c] =
      64 * a + 8 * b + c := by
    simp only [digitsValue, List.foldl_cons, List.foldl_nil, hva, hvb, hvc]
    omega
  rw [escape?, hname]
  simp only [if_neg (not_or.mpr ⟨hlower, hupper⟩), if_pos ha, hdigits, hvalue]
  rfl

theorem escape?_stray {c : Char} (hc : StartsNoEscape c) (r : List Char) :
    escape? (c :: r) = none := by
  have hname : namedEscape? c = none := by
    rw [Option.eq_none_iff_forall_ne_some]
    intro b hb
    exact hc.name (c, b) (namedEscape?_eq_some_iff.mp hb) rfl
  have hoctal : ¬ isOctDigit c := by
    intro h
    obtain ⟨d, hd⟩ := exists_octDigit h
    exact hc.octal d hd
  rw [escape?, hname]
  simp only [if_neg (not_or.mpr ⟨hc.lower, hc.upper⟩), if_neg hoctal]

end Escapes

theorem unescape_nil : unescape [] = [] := by
  rw [unescape]

theorem unescape_char {c : Char} (hc : c ≠ '\\') (r : List Char) :
    unescape (c :: r) = String.utf8EncodeChar c ++ unescape r := by
  rw [unescape, if_neg hc]
  simp [utf8Bytes]

theorem unescape_escape {r : List Char} {bytes : List UInt8} {n : Nat}
    (h : escape? r = some (bytes, n)) : unescape ('\\' :: r) = bytes ++ unescape (r.drop n) := by
  rw [unescape, if_pos rfl, h]

theorem unescape_backslash {r : List Char} (h : escape? r = none) :
    unescape ('\\' :: r) = utf8Bytes ['\\'] ++ unescape r := by
  rw [unescape, if_pos rfl, h]

/-- A token is decoded by itself, whatever follows it. -/
theorem unescape_token (t : Token) (r : List Char) :
    unescape (t.text ++ r) = t.bytes ++ unescape r := by
  cases t with
  | char c hc => exact unescape_char hc r
  | named e he => exact unescape_escape (escape?_named he r)
  | hex x hx high low => exact unescape_escape (escape?_hex hx high low r)
  | octal a b c => exact unescape_escape (escape?_octal a b c r)
  | stray c hc =>
    have hplain : c ≠ '\\' := by
      rintro rfl
      exact hc.name ('\\', 0x5c) (by decide) rfl
    have hslash := unescape_backslash (escape?_stray hc r)
    rw [unescape_char hplain] at hslash
    rw [Token.text, List.cons_append, List.singleton_append, hslash, Token.bytes]
    simp [utf8Bytes]

theorem unescape_flatMap_text (ts : List Token) :
    unescape (ts.flatMap Token.text) = ts.flatMap Token.bytes := by
  induction ts with
  | nil => exact unescape_nil
  | cons t ts ih => rw [List.flatMap_cons, unescape_token, ih, List.flatMap_cons]

/-- The names that bytes are written by. -/
def writtenNames : List (UInt8 × Char) := [
  (0x0a, 'n'), (0x0d, 'r'), (0x09, 't'), (0x22, '"'), (0x27, '\x27'), (0x5c, '\\')]

/-- A byte as it is written in a text with escapes: by its name if it has one, printable characters
as they are, and all others in octal. -/
def escapedByte (b : UInt8) : List Char :=
  match writtenNames.lookup b with
  | some c => ['\\', c]
  | none =>
    if 0x20 ≤ b.toNat ∧ b.toNat ≤ 0x7e then [Char.ofNat b.toNat]
    else
      ['\\', Nat.digitChar (b.toNat / 64), Nat.digitChar (b.toNat / 8 % 8),
        Nat.digitChar (b.toNat % 8)]

theorem toNat_ofNat_ascii {n : Nat} (h : n < 0x80) : (Char.ofNat n).toNat = n := by
  have hvalid : n.isValidChar := Or.inl (by omega)
  rw [Char.ofNat, dif_pos hvalid]
  rfl

/-- A printable character is a single byte. -/
theorem utf8EncodeChar_ascii {b : UInt8} (hb : b.toNat < 0x80) :
    String.utf8EncodeChar (Char.ofNat b.toNat) = [b] := by
  have hnat : (Char.ofNat b.toNat).val.toNat = b.toNat := toNat_ofNat_ascii hb
  rw [String.utf8EncodeChar, if_pos (by omega), hnat, UInt8.ofNat_toNat]

/-- What is written for a byte is a token that denotes it. -/
theorem exists_token (b : UInt8) : ∃ t : Token, t.text = escapedByte b ∧ t.bytes = [b] := by
  unfold escapedByte
  split
  · next c hc =>
    have hnames : ∀ e ∈ writtenNames, (e.2, e.1) ∈ escapeNames := by decide
    exact ⟨.named (c, b) (hnames (b, c) (mem_of_lookup hc)), rfl, rfl⟩
  · next hnone =>
    split
    · next hb =>
      refine ⟨.char (Char.ofNat b.toNat) ?_, rfl, utf8EncodeChar_ascii (by omega)⟩
      intro hslash
      have hnat := toNat_ofNat_ascii (n := b.toNat) (by omega)
      rw [hslash] at hnat
      obtain rfl : b = 0x5c := UInt8.toNat_inj.mp hnat.symm
      exact absurd hnone (by decide)
    · have hlt := b.toNat_lt
      refine ⟨.octal ⟨b.toNat / 64, by omega⟩ ⟨b.toNat / 8 % 8, by omega⟩ ⟨b.toNat % 8, by omega⟩,
        rfl, ?_⟩
      have hvalue : 64 * (b.toNat / 64) + 8 * (b.toNat / 8 % 8) + b.toNat % 8 = b.toNat := by omega
      rw [Token.bytes, if_pos (by dsimp only; omega), hvalue, UInt8.ofNat_toNat]

theorem unescape_flatMap_escapedByte (bs : List UInt8) :
    unescape (bs.flatMap escapedByte) = bs := by
  induction bs with
  | nil => exact unescape_nil
  | cons b bs ih =>
    obtain ⟨t, htext, hbytes⟩ := exists_token b
    rw [List.flatMap_cons, ← htext, unescape_token, hbytes, ih]
    rfl

theorem unescape_plain {cs : List Char} (h : '\\' ∉ cs) : unescape cs = utf8Bytes cs := by
  induction cs with
  | nil => exact unescape_nil
  | cons c cs ih =>
    rw [List.mem_cons, not_or] at h
    rw [unescape_char (Ne.symm h.1), ih h.2, utf8Bytes, utf8Bytes, List.flatMap_cons]

section Lengths

theorem utf8Bytes_append (a b : List Char) : utf8Bytes (a ++ b) = utf8Bytes a ++ utf8Bytes b :=
  List.flatMap_append

theorem length_utf8Bytes_backslash (cs : List Char) :
    (utf8Bytes ('\\' :: cs)).length = 1 + (utf8Bytes cs).length := by
  rw [show '\\' :: cs = ['\\'] ++ cs from rfl, utf8Bytes_append, List.length_append]
  rfl

/-- An escape denotes no more bytes than it takes, its backslash counted. -/
theorem escape?_length {r : List Char} {bytes : List UInt8} {n : Nat}
    (h : escape? r = some (bytes, n)) : bytes.length ≤ 1 + (utf8Bytes (r.take n)).length := by
  cases r with
  | nil => cases h
  | cons e r =>
    simp only [escape?] at h
    split at h
    · obtain ⟨rfl, rfl⟩ := Prod.mk.inj (Option.some.inj h)
      exact Nat.le_add_right 1 _
    · split_ifs at h with hx hnone hoctal hvalue
      · obtain ⟨rfl, rfl⟩ := Prod.mk.inj (Option.some.inj h)
        exact (length_utf8Bytes_backslash [e]).le
      · obtain ⟨rfl, -⟩ := Prod.mk.inj (Option.some.inj h)
        exact Nat.le_add_right 1 _
      · obtain ⟨rfl, -⟩ := Prod.mk.inj (Option.some.inj h)
        exact Nat.le_add_right 1 _
      · obtain ⟨rfl, rfl⟩ := Prod.mk.inj (Option.some.inj h)
        have hdigits : ((e :: r).take 3).takeWhile isOctDigit <+: e :: r :=
          (List.takeWhile_prefix _).trans (List.take_prefix 3 (e :: r))
        rw [← List.prefix_iff_eq_take.mp hdigits]
        exact (length_utf8Bytes_backslash _).le

/-- Decoding makes no text longer. -/
theorem length_unescape_le (cs : List Char) : (unescape cs).length ≤ (utf8Bytes cs).length := by
  fun_induction unescape cs with
  | case1 => exact Nat.le_refl _
  | case2 r bytes n h ih =>
    have hescape := escape?_length h
    have hsplit : (utf8Bytes r).length =
        (utf8Bytes (r.take n)).length + (utf8Bytes (r.drop n)).length := by
      rw [← List.length_append, ← utf8Bytes_append, List.take_append_drop]
    rw [length_utf8Bytes_backslash, List.length_append]
    omega
  | case3 r h ih =>
    rw [length_utf8Bytes_backslash, List.length_append]
    exact Nat.add_le_add_left ih 1
  | case4 c r h ih =>
    rw [show c :: r = [c] ++ r from rfl, utf8Bytes_append]
    simpa using ih

end Lengths

/-- Escapes are decoded token by token. So bytes that are written with escapes are read back, a text
without a backslash stands for its own bytes, and no text stands for more bytes than it has. -/
theorem unescape_tokens :
    (∀ ts : List Token, unescape (ts.flatMap Token.text) = ts.flatMap Token.bytes) ∧
      (∀ bs : List UInt8, unescape (bs.flatMap escapedByte) = bs) ∧
      (∀ cs : List Char, '\\' ∉ cs → unescape cs = cs.flatMap String.utf8EncodeChar) ∧
      ∀ cs : List Char, (unescape cs).length ≤ (cs.flatMap String.utf8EncodeChar).length :=
  ⟨unescape_flatMap_text, unescape_flatMap_escapedByte, fun _ => unescape_plain,
    length_unescape_le⟩

/-- Digits after escapes of digits, and escapes that are none. -/
theorem unescape_tokens_adjacent :
    '\\' ∉ "größe".toList ∧
      unescape "größe".toList = [0x67, 0x72, 0xc3, 0xb6, 0xc3, 0x9f, 0x65] ∧
      unescape "\\1011\\X4aa\\777\\q\\n".toList =
        [0x41, 0x31, 0x4a, 0x61, 0x5c, 0x37, 0x37, 0x37, 0x5c, 0x71, 0x0a] := by
  have hq : StartsNoEscape 'q' := ⟨by decide, by decide, by decide, by decide⟩
  let ts : List Token := [
    .octal 1 0 1, .char '1' (by decide), .hex 'X' (.inr rfl) ⟨4, '4', .inl rfl⟩ ⟨10, 'a', .inl rfl⟩,
    .char 'a' (by decide), .octal 7 7 7, .stray 'q' hq, .named ('n', 0x0a) (by decide)]
  have hplain : '\\' ∉ "größe".toList := by decide
  exact ⟨hplain, unescape_tokens.2.2.1 _ hplain, unescape_tokens.1 ts⟩

end ProtoJava.Text
