import Mathlib.Data.List.Basic
import Mathlib.Tactic.IntervalCases
import ProtoJava.Java.Brackets
import ProtoJava.Proofs.Text.Decimals
import ProtoJava.Text.Quoted

/-! # Scanning of code

What a piece of code does to the brackets that are open when it is scanned, told by a scan that
looks at one character at a time and stays on one line.
-/

namespace ProtoJava.Java

/-- Where a scan of code stands: in code, in a literal in double or single quotes, or after a
backslash in one. -/
inductive Place
  | code
  | literal (double : Bool)
  | escaped (double : Bool)

/-- The quote of a literal. -/
def quoteOf (double : Bool) : Char :=
  if double then '"' else '\x27'

/-- One step of a scan with brackets open, last one first; there is none over the end of a line, a
slash in code, or a bracket that closes nothing. -/
def scanChar : Place × List Char → Char → Option (Place × List Char)
  | (.code, opened), c =>
    if c = '/' ∨ c = '\n' then none
    else if c = '"' then some (.literal true, opened)
    else if c = '\x27' then some (.literal false, opened)
    else if isOpening c then some (.code, c :: opened)
    else if isClosing c then
      match opened with
      | o :: rest => if o = partner c then some (.code, rest) else none
      | [] => none
    else some (.code, opened)
  | (.literal double, opened), c =>
    if c = '\n' then none
    else if c = '\\' then some (.escaped double, opened)
    else if c = quoteOf double then some (.code, opened)
    else some (.literal double, opened)
  | (.escaped double, opened), c => if c = '\n' then none else some (.literal double, opened)

def scanText (σ : Place × List Char) (cs : List Char) : Option (Place × List Char) :=
  cs.foldlM scanChar σ

section Scans

variable {σ τ : Place × List Char} {cs ds : List Char}

theorem scanText_nil (σ : Place × List Char) : scanText σ [] = some σ :=
  rfl

theorem scanText_cons (σ : Place × List Char) (c : Char) (cs : List Char) :
    scanText σ (c :: cs) = (scanChar σ c).bind (scanText · cs) := by
  simp [scanText]

theorem scanText_append (σ : Place × List Char) (cs ds : List Char) :
    scanText σ (cs ++ ds) = (scanText σ cs).bind (scanText · ds) := by
  simp [scanText, List.foldlM_append]

theorem scanChar_newline (σ : Place × List Char) : scanChar σ '\n' = none := by
  obtain ⟨p, opened⟩ := σ
  cases p <;> simp [scanChar]

theorem scanText_newline (h : scanText σ cs = some τ) : '\n' ∉ cs := by
  induction cs generalizing σ with
  | nil => exact List.not_mem_nil
  | cons c cs ih =>
    rw [scanText_cons, Option.bind_eq_some_iff] at h
    obtain ⟨σ', hc, h⟩ := h
    rw [List.mem_cons, not_or]
    refine ⟨?_, ih h⟩
    rintro rfl
    simp [scanChar_newline] at hc

end Scans

/-- The region of a source text that a place is in. -/
def Place.region : Place → Region
  | .code => .code
  | .literal double | .escaped double => if double then .string else .character

/-- What a scan has read but not used yet. -/
def Place.pending : Place → List Char
  | .escaped _ => ['\\']
  | _ => []

section Steps

variable {line : Nat} {os : List Opening} {c : Char} {rest : List Char}

theorem scanBrackets_code (hc : c ≠ '/') : scanBrackets .code line os (c :: rest) =
    if c = '"' then scanBrackets .string line os rest
    else if c = '\x27' then scanBrackets .character line os rest
    else if isOpening c then scanBrackets .code line (⟨c, line⟩ :: os) rest
    else if isClosing c then
      match closeBracket c line os with
      | .ok os => scanBrackets .code line os rest
      | .error e => .error e
    else scanBrackets .code (lineAfter c line) os rest := by
  rw [scanBrackets.eq_def]
  exact if_neg hc

theorem scanBrackets_literal (double : Bool) (hc : c ≠ '\\') (hn : c ≠ '\n') :
    scanBrackets (Place.literal double).region line os (c :: rest) =
      if c = quoteOf double then scanBrackets .code line os rest
      else scanBrackets (Place.literal double).region line os rest := by
  cases double <;> rw [Place.region, scanBrackets.eq_def] <;>
    simp [hc, hn, Region.quote, quoteOf]

theorem scanBrackets_escaped (double : Bool) (hn : c ≠ '\n') :
    scanBrackets (Place.escaped double).region line os ('\\' :: c :: rest) =
      scanBrackets (Place.escaped double).region line os rest := by
  cases double <;> rw [Place.region, scanBrackets.eq_def] <;> simp [hn, lineAfter]

end Steps

/-- The text is scanned from code to code, and the open brackets change. -/
def Passes (cs a b : List Char) : Prop :=
  ∀ line (os : List Opening), os.map (·.bracket) = a →
    ∃ line' os', os'.map (·.bracket) = b ∧ ∀ rest,
      scanBrackets .code line os (cs ++ rest) = scanBrackets .code line' os' rest

section Passes

variable {cs ds a b c : List Char}

theorem Passes.append (h : Passes cs a b) (h' : Passes ds b c) : Passes (cs ++ ds) a c := by
  intro line os ho
  obtain ⟨line, os, ho, h⟩ := h line os ho
  obtain ⟨line, os, ho, h'⟩ := h' line os ho
  exact ⟨line, os, ho, fun rest => by rw [List.append_assoc, h, h']⟩

theorem passes_nil (a : List Char) : Passes [] a a :=
  fun line os ho => ⟨line, os, ho, fun _ => rfl⟩

theorem passes_newline (a : List Char) : Passes ['\n'] a a := by
  intro line os ho
  refine ⟨line + 1, os, ho, fun rest => ?_⟩
  rw [List.singleton_append, scanBrackets_code (by decide)]
  rfl

theorem passes_newlines (n : Nat) (a : List Char) : Passes (List.replicate n '\n') a a := by
  induction n with
  | zero => exact passes_nil a
  | succ n ih => exact (passes_newline a).append ih

theorem passes_comment (hc : '\n' ∉ cs) (a : List Char) :
    Passes ('/' :: '/' :: cs ++ ['\n']) a a := by
  intro line os ho
  refine ⟨line + 1, os, ho, fun rest => ?_⟩
  have h : ∀ ds : List Char, '\n' ∉ ds → scanBrackets .lineComment line os (ds ++ '\n' :: rest) =
      scanBrackets .code (line + 1) os rest := by
    intro ds hd
    induction ds with
    | nil => simp [scanBrackets, lineAfter]
    | cons d ds ih =>
      rw [List.mem_cons, not_or] at hd
      simp [scanBrackets, lineAfter, Ne.symm hd.1, ih hd.2]
  have := h cs hc
  simpa [scanBrackets] using this

end Passes

/-- One step of the scan of single characters agrees with the scan of source texts. -/
theorem scanBrackets_of_scanChar {p q : Place} {a b : List Char} {c : Char}
    (h : scanChar (p, a) c = some (q, b)) (line : Nat) {os : List Opening}
    (ho : os.map (·.bracket) = a) :
    ∃ os', os'.map (·.bracket) = b ∧ ∀ rest,
      scanBrackets p.region line os (p.pending ++ c :: rest) =
        scanBrackets q.region line os' (q.pending ++ rest) := by
  cases p with
  | code =>
    simp only [scanChar] at h
    split at h
    · simp at h
    · next hn =>
      rw [not_or] at hn
      simp only [Place.region, Place.pending, List.nil_append, scanBrackets_code hn.1]
      split_ifs at h ⊢ with hd hs hopen hclose
      · obtain ⟨rfl, rfl⟩ : Place.literal true = q ∧ a = b := by simpa using h
        exact ⟨os, ho, fun rest => rfl⟩
      · obtain ⟨rfl, rfl⟩ : Place.literal false = q ∧ a = b := by simpa using h
        exact ⟨os, ho, fun rest => rfl⟩
      · obtain ⟨rfl, rfl⟩ : Place.code = q ∧ c :: a = b := by simpa using h
        exact ⟨⟨c, line⟩ :: os, by simp [ho], fun rest => rfl⟩
      · cases os with
        | nil => simp [← ho] at h
        | cons o os =>
          rw [← ho, List.map_cons] at h
          simp only at h
          split at h
          · next hp =>
            obtain ⟨rfl, rfl⟩ : Place.code = q ∧ os.map (·.bracket) = b := by simpa using h
            exact ⟨os, rfl, fun rest => by simp [closeBracket, hp]⟩
          · simp at h
      · obtain ⟨rfl, rfl⟩ : Place.code = q ∧ a = b := by simpa using h
        exact ⟨os, ho, fun rest => by simp [lineAfter, hn.2]⟩
  | literal double =>
    simp only [scanChar] at h
    split at h
    · simp at h
    · next hn =>
      split at h
      · next hc =>
        obtain ⟨rfl, rfl⟩ : Place.escaped double = q ∧ a = b := by simpa using h
        exact ⟨os, ho, fun rest => by rw [hc]; rfl⟩
      · next hc =>
        simp only [Place.pending, List.nil_append, scanBrackets_literal double hc hn]
        split_ifs at h ⊢ with hq
        · obtain ⟨rfl, rfl⟩ : Place.code = q ∧ a = b := by simpa using h
          exact ⟨os, ho, fun rest => rfl⟩
        · obtain ⟨rfl, rfl⟩ : Place.literal double = q ∧ a = b := by simpa using h
          exact ⟨os, ho, fun rest => rfl⟩
  | escaped double =>
    simp only [scanChar] at h
    split at h
    · simp at h
    · next hn =>
      obtain ⟨rfl, rfl⟩ : Place.literal double = q ∧ a = b := by simpa using h
      exact ⟨os, ho, fun rest => scanBrackets_escaped double hn⟩

theorem scanBrackets_of_scanText {p q : Place} {a b cs : List Char}
    (h : scanText (p, a) cs = some (q, b)) (line : Nat) {os : List Opening}
    (ho : os.map (·.bracket) = a) :
    ∃ os', os'.map (·.bracket) = b ∧ ∀ rest,
      scanBrackets p.region line os (p.pending ++ (cs ++ rest)) =
        scanBrackets q.region line os' (q.pending ++ rest) := by
  induction cs generalizing p a os with
  | nil =>
    rw [scanText_nil, Option.some.injEq, Prod.mk.injEq] at h
    obtain ⟨rfl, rfl⟩ := h
    exact ⟨os, ho, fun rest => rfl⟩
  | cons c cs ih =>
    rw [scanText_cons, Option.bind_eq_some_iff] at h
    obtain ⟨⟨p', a'⟩, hc, h⟩ := h
    obtain ⟨os', ho', hstep⟩ := scanBrackets_of_scanChar hc line ho
    obtain ⟨os'', ho'', hrest⟩ := ih h ho'
    exact ⟨os'', ho'', fun rest => by rw [List.cons_append, hstep, hrest]⟩

theorem passes_of_scanText {a b cs : List Char} (h : scanText (.code, a) cs = some (.code, b)) :
    Passes cs a b := by
  intro line os ho
  obtain ⟨os', ho', h⟩ := scanBrackets_of_scanText h line ho
  exact ⟨line, os', ho', h⟩

/-- Code that turns the open brackets `a` into `b`. -/
structure Turn (s : String) (a b : List Char) : Prop where
  scan : scanText (.code, a) s.toList = some (.code, b)

/-- Code that leaves the open brackets as they are. -/
def Neutral (s : String) : Prop :=
  ∀ a, Turn s a a

section Turns

variable {s t : String} {a b c : List Char}

theorem Turn.append (h : Turn s a b) (h' : Turn t b c) : Turn (s ++ t) a c := by
  constructor
  rw [String.toList_append, scanText_append, h.scan]
  exact h'.scan

/-- A literal is scanned by evaluation. -/
theorem Turn.lit {cs : List Char} (h : scanText (.code, a) cs = some (.code, b)) :
    Turn (String.ofList cs) a b := by
  constructor
  rw [String.toList_ofList]
  exact h

theorem Turn.newline (h : Turn s a b) : '\n' ∉ s.toList :=
  scanText_newline h.scan

theorem Neutral.turn (h : Neutral s) : Turn s a a :=
  h a

theorem Neutral.append (h : Neutral s) (h' : Neutral t) : Neutral (s ++ t) :=
  fun _ => h.turn.append h'.turn

/-- The characters that mean something to a scan of code. -/
def marks : List Char :=
  ['/', '\n', '"', '\x27', '(', '[', '\x7b', ')', ']', '\x7d']

/-- A character that code is scanned over without any change. -/
def isPlain (c : Char) : Bool :=
  !marks.contains c

theorem isPlain_of {p : Char → Bool} {c : Char} (h : p c) (hp : marks.all (!p ·)) : isPlain c := by
  rw [isPlain, Bool.not_eq_true', List.contains_eq_mem, decide_eq_false_iff_not]
  intro hm
  have := List.all_eq_true.mp hp c hm
  simp [h] at this

theorem scanChar_plain {c : Char} (h : isPlain c) : scanChar (.code, a) c = some (.code, a) := by
  simp only [isPlain, marks, Bool.not_eq_true', List.contains_eq_mem, decide_eq_false_iff_not,
    List.mem_cons, List.not_mem_nil, or_false, not_or] at h
  simp [scanChar, isOpening, isClosing, h]

theorem neutral_of_plain (h : ∀ c ∈ s.toList, isPlain c) : Neutral s := by
  intro a
  constructor
  generalize s.toList = cs at h
  induction cs with
  | nil => rfl
  | cons c cs ih =>
    rw [List.forall_mem_cons] at h
    rw [scanText_cons, scanChar_plain h.1]
    exact ih h.2

theorem scanText_quotedChar (c : Char) (a : List Char) :
    scanText (.literal true, a) (Text.quotedChar c) = some (.literal true, a) := by
  have hhex : ∀ k < 16,
      scanText (.literal true, a) [Nat.digitChar k] = some (.literal true, a) := by
    intro k hk
    interval_cases k <;> rfl
  have hpair : scanText (.literal true, a) (Text.hexPair c.toNat) = some (.literal true, a) := by
    rw [Text.hexPair, ← List.singleton_append, scanText_append, hhex _ (Nat.mod_lt _ (by decide))]
    exact hhex _ (Nat.mod_lt _ (by decide))
  unfold Text.quotedChar
  split_ifs with hq hb hn
  case pos => rfl
  case pos => rfl
  case pos => rfl
  case pos => rfl
  case pos => rfl
  case pos => rfl
  case pos => rfl
  · rw [scanText_append]
    exact hpair
  · simp [scanText_cons, scanText_nil, scanChar, quoteOf, hq, hb, hn]

theorem neutral_quoted (s : String) : Neutral (Text.quoted s) := by
  intro a
  have hchars : ∀ cs : List Char, scanText (.literal true, a) (cs.flatMap Text.quotedChar) =
      some (.literal true, a) := by
    intro cs
    induction cs with
    | nil => rfl
    | cons c cs ih =>
      rw [List.flatMap_cons, scanText_append, scanText_quotedChar]
      exact ih
  have hopen : scanText (.code, a) "\"".toList = some (.literal true, a) := rfl
  have hclose : scanText (.literal true, a) "\"".toList = some (.code, a) := rfl
  constructor
  simp only [Text.quoted, String.toList_append, String.toList_ofList, scanText_append, hopen,
    Option.bind_some, hchars, hclose]

theorem neutral_int (i : Int) : Neutral (toString i) := by
  refine neutral_of_plain fun c hc => ?_
  rcases Text.of_mem_int hc with rfl | hd
  · decide
  · exact isPlain_of hd (by decide)

end Turns

end ProtoJava.Java
