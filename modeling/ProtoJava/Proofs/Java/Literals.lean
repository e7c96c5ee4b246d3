import Mathlib.Tactic.IntervalCases
import ProtoJava.Proofs.Java.Scanning
import ProtoJava.Proofs.Java.UnicodeEscapes

/-! # String literals

Reading a literal takes two passes: Unicode escapes are decoded first, wherever they stand, and the
escapes of the literal in what that leaves. A quoted text is a single literal to both, and its value
is the text.
-/

namespace ProtoJava.Java

open Text

/-- The character that an escape of a literal denotes, and how many characters it takes after its
backslash: a name, or up to three octal digits, of which the first is at most 3 if there are
three. -/
def literalEscape? : List Char → Option (Char × Nat)
  | [] => none
  | 'b' :: _ => some ('\x08', 1)
  | 's' :: _ => some (' ', 1)
  | 't' :: _ => some ('\t', 1)
  | 'n' :: _ => some ('\n', 1)
  | 'f' :: _ => some ('\x0c', 1)
  | 'r' :: _ => some ('\r', 1)
  | '"' :: _ => some ('"', 1)
  | '\x27' :: _ => some ('\x27', 1)
  | '\\' :: _ => some ('\\', 1)
  | c :: r =>
    let ds := ((c :: r).take (if c ≤ '3' then 3 else 2)).takeWhile isOctDigit
    if ds = [] then none else some (Char.ofNat (digitsValue 8 ds), ds.length)

/-- The value of a literal in double quotes, from behind the first of them on, and what follows the
literal, if it ends within its line. -/
def readLiteral : List Char → Option (List Char × List Char)
  | [] => none
  | c :: r =>
    if c = '"' then some ([], r)
    else if c = '\n' ∨ c = '\r' then none
    else if c ≠ '\\' then (readLiteral r).map fun (v, rest) => (c :: v, rest)
    else
      match literalEscape? r with
      | some (d, n) => (readLiteral (r.drop n)).map fun (v, rest) => (d :: v, rest)
      | none => none
  termination_by cs => cs.length
  decreasing_by all_goals (simp only [List.length_cons, List.length_drop]; omega)

/-- The value of the string literal at the start of a text, and what follows it. Three quotes start
a text block instead. -/
def stringLiteral? : List Char → Option (List Char × List Char)
  | '"' :: r => if ['"', '"'] <+: r then none else readLiteral r
  | _ => none

section Passes

variable {c : Char}

theorem readLiteral_char (hq : c ≠ '"') (hn : c ≠ '\n') (hr : c ≠ '\r') (hb : c ≠ '\\')
    (r : List Char) : readLiteral (c :: r) =
      (readLiteral r).map fun (v, rest) => (c :: v, rest) := by
  rw [readLiteral, if_neg hq, if_neg (by simp [hn, hr]), if_pos hb]

theorem readLiteral_escape {r : List Char} {n : Nat} (h : literalEscape? r = some (c, n)) :
    readLiteral ('\\' :: r) = (readLiteral (r.drop n)).map fun (v, rest) => (c :: v, rest) := by
  rw [readLiteral, if_neg (by decide), if_neg (by decide), if_neg (by decide), h]

/-- In a string literal, only quotes, backslashes and line feeds mean something to a scan. -/
theorem scanBrackets_inside {cs : List Char} (h : ∀ c ∈ cs, c ≠ '"' ∧ c ≠ '\n' ∧ c ≠ '\\')
    (line : Nat) (os : List Opening) (r : List Char) :
    scanBrackets .string line os (cs ++ r) = scanBrackets .string line os r := by
  induction cs with
  | nil => rfl
  | cons c cs ih =>
    rw [List.forall_mem_cons] at h
    obtain ⟨⟨hq, hn, hb⟩, h⟩ := h
    have hscan : scanBrackets .string line os (c :: (cs ++ r)) = if c = '"' then _ else _ :=
      scanBrackets_literal true hb hn
    rw [if_neg hq] at hscan
    exact hscan.trans (ih h)

end Passes

/-- Inside a literal, text whose decoded form is read as part of the value, within the line, and
that a scan for brackets passes over. -/
structure Spells (raw source value : List Char) : Prop where
  decode : ∀ r, decodeFrom false (raw ++ r) = (decodeFrom false r).map (source ++ ·)
  read : ∀ r, readLiteral (source ++ r) = (readLiteral r).map fun (v, rest) => (value ++ v, rest)
  quote : source.head? ≠ some '"'
  newline : '\n' ∉ source
  carriageReturn : '\r' ∉ source
  scan : ∀ line os r, scanBrackets .string line os (raw ++ r) = scanBrackets .string line os r

namespace Spells

variable {raw raw' source source' value value' : List Char} {c e : Char}

theorem nil : Spells [] [] [] where
  decode r := by simp
  read r := by simp
  quote := by simp
  newline := List.not_mem_nil
  carriageReturn := List.not_mem_nil
  scan _ _ _ := rfl

theorem append (h : Spells raw source value) (h' : Spells raw' source' value') :
    Spells (raw ++ raw') (source ++ source') (value ++ value') where
  decode r := by
    rw [List.append_assoc, h.decode, h'.decode, Option.map_map]
    simp [Function.comp_def]
  read r := by
    rw [List.append_assoc, h.read, h'.read, Option.map_map]
    simp [Function.comp_def]
  quote := by
    rw [List.head?_append]
    have hfirst := h.quote
    cases hs : source.head? with
    | none => exact h'.quote
    | some c => rwa [hs] at hfirst
  newline := by simp [h.newline, h'.newline]
  carriageReturn := by simp [h.carriageReturn, h'.carriageReturn]
  scan line os r := by rw [List.append_assoc, h.scan, h'.scan]

/-- A character that needs no escape. -/
theorem char (hq : c ≠ '"') (hn : c ≠ '\n') (hr : c ≠ '\r') (hb : c ≠ '\\') :
    Spells [c] [c] [c] where
  decode r := decodeFrom_char hb false r
  read r := readLiteral_char hq hn hr hb r
  quote := by simpa using hq
  newline := by simpa using hn.symm
  carriageReturn := by simpa using hr.symm
  scan := scanBrackets_inside (by simp [hq, hn, hb])

/-- A backslash and a name. -/
theorem named (hu : e ≠ 'u') (hn : e ≠ '\n') (hr : e ≠ '\r')
    (h : ∀ r, literalEscape? (e :: r) = some (c, 1)) : Spells ['\\', e] ['\\', e] [c] where
  decode r := decodeFrom_escape hu r
  read r := readLiteral_escape (h r)
  quote := by simp
  newline := by simpa using hn.symm
  carriageReturn := by simpa using hr.symm
  scan _ _ _ := scanBrackets_escaped true hn

end Spells

section Controls

variable {n : Nat} (hn : n < 0x20)

include hn

theorem unicodeEscape?_hexPair (r : List Char) :
    unicodeEscape? (['u', '0', '0'] ++ hexPair n ++ r) = some (Char.ofNat n, 5) := by
  interval_cases n <;> rfl

theorem scanBrackets_hexPair (line : Nat) (os : List Opening) (r : List Char) :
    scanBrackets .string line os (['\\', 'u', '0', '0'] ++ hexPair n ++ r) =
      scanBrackets .string line os r := by
  have hdigits : ∀ c ∈ '0' :: '0' :: hexPair n, c ≠ '"' ∧ c ≠ '\n' ∧ c ≠ '\\' := by
    interval_cases n <;> simp [hexPair]
  have hescape : ∀ r, scanBrackets .string line os ('\\' :: 'u' :: r) =
      scanBrackets .string line os r :=
    fun _ => scanBrackets_escaped true (by decide)
  exact (hescape _).trans (scanBrackets_inside hdigits line os r)

end Controls

/-- A control character as a Unicode escape. -/
theorem spells_control {c : Char} (hc : c.toNat < 0x20) (hn : c ≠ '\n') (hr : c ≠ '\r') :
    Spells (['\\', 'u', '0', '0'] ++ hexPair c.toNat) [c] [c] := by
  have hq : c ≠ '"' := by
    rintro rfl
    exact absurd hc (by decide)
  have hb : c ≠ '\\' := by
    rintro rfl
    exact absurd hc (by decide)
  have hplain := Spells.char hq hn hr hb
  refine { hplain with decode := ?_, scan := scanBrackets_hexPair hc }
  intro r
  have hescape := unicodeEscape?_hexPair hc r
  rw [Char.ofNat_toNat] at hescape
  exact decodeFrom_unicode hescape

theorem exists_spells_quotedChar (c : Char) : ∃ source, Spells (quotedChar c) source [c] := by
  have hnamed : ∀ {e d : Char}, e ≠ 'u' → e ≠ '\n' → e ≠ '\r' →
      (∀ r, literalEscape? (e :: r) = some (d, 1)) → ∃ source, Spells ['\\', e] source [d] :=
    fun hu hn hr h => ⟨_, .named hu hn hr h⟩
  by_cases hc : c ∈ ['"', '\\', '\n', '\r', '\t', '\x08', '\x0c']
  · simp only [List.mem_cons, List.not_mem_nil, or_false] at hc
    rcases hc with rfl | rfl | rfl | rfl | rfl | rfl | rfl
    all_goals exact hnamed (by decide) (by decide) (by decide) fun _ => rfl
  · simp only [List.mem_cons, List.not_mem_nil, or_false, not_or] at hc
    obtain ⟨hq, hb, hn, hr, ht, hback, hfeed⟩ := hc
    rw [quotedChar, if_neg hq, if_neg hb, if_neg hn, if_neg hr, if_neg ht, if_neg hback,
      if_neg hfeed]
    split
    · next hcontrol => exact ⟨[c], spells_control hcontrol hn hr⟩
    · exact ⟨[c], .char hq hn hr hb⟩

theorem exists_spells (cs : List Char) : ∃ source, Spells (cs.flatMap quotedChar) source cs := by
  induction cs with
  | nil => exact ⟨[], .nil⟩
  | cons c cs ih =>
    obtain ⟨first, hfirst⟩ := exists_spells_quotedChar c
    obtain ⟨others, hothers⟩ := ih
    exact ⟨first ++ others, hfirst.append hothers⟩

/-- What a literal spells is its value. -/
theorem Spells.stringLiteral? {raw source value : List Char} (h : Spells raw source value) :
    stringLiteral? ('"' :: (source ++ ['"'])) = some (value, []) := by
  have hblock : ¬ ['"', '"'] <+: source ++ ['"'] := by
    have hfirst := h.quote
    cases source with
    | nil => simp
    | cons c source =>
      rw [List.cons_append, List.cons_prefix_cons]
      rintro ⟨rfl, -⟩
      exact hfirst rfl
  have hclose : readLiteral ['"'] = some ([], []) := by
    rw [readLiteral, if_pos rfl]
  rw [Java.stringLiteral?, if_neg hblock, h.read, hclose]
  simp

/-- A quoted text denotes itself. Its Unicode escapes decode to one string literal without a line
end in it, nothing is left over, and the value is the text. A scan for brackets that comes to it in
code leaves it in code, on the same line, with the same brackets open. -/
theorem quoted_denotes (text : String) :
    (∃ source, decodeUnicode (quoted text).toList = some source ∧
      stringLiteral? source = some (text.toList, []) ∧ '\n' ∉ source ∧ '\r' ∉ source) ∧
    ∀ line opened rest, scanBrackets .code line opened ((quoted text).toList ++ rest) =
      scanBrackets .code line opened rest := by
  obtain ⟨source, h⟩ := exists_spells text.toList
  have htext : (quoted text).toList = '"' :: (text.toList.flatMap quotedChar ++ ['"']) := by
    simp [quoted]
  constructor
  · refine ⟨'"' :: (source ++ ['"']), ?_, h.stringLiteral?, ?_, ?_⟩
    · have hclose : decodeFrom false ['"'] = some ['"'] := by
        rw [decodeFrom_char (by decide), decodeFrom_nil]
        rfl
      rw [htext, decodeUnicode, decodeFrom_char (by decide), h.decode, hclose]
      rfl
    · simp [h.newline]
    · simp [h.carriageReturn]
  · intro line opened rest
    have hopen : ∀ r, scanBrackets .code line opened ('"' :: r) =
        scanBrackets .string line opened r := by
      intro r
      rw [scanBrackets_code (by decide), if_pos rfl]
    have hclose : scanBrackets .string line opened ('"' :: rest) =
        scanBrackets .code line opened rest := by
      have hquote : scanBrackets .string line opened ('"' :: rest) = if '"' = '"' then _ else _ :=
        scanBrackets_literal true (by decide) (by decide)
      rwa [if_pos rfl] at hquote
    rw [htext, List.cons_append, hopen, List.append_assoc, h.scan, List.singleton_append, hclose]

example : decodeUnicode (quoted "\x01\\u0041").toList = some "\"\x01\\\\u0041\"".toList := by
  cbv

end ProtoJava.Java
