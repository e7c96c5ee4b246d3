import ProtoJava.Proofs.Java.Segments

/-! # Matching brackets

The check of brackets reads a source text segment by segment. It passes just if the brackets in
code are matched, no line ends inside a literal unless a backslash takes its end, and the last
comment is ended. What it reports otherwise stands on the line of the first fault.
-/

namespace ProtoJava.Java

/-- The brackets that open something, each with the one that closes it. -/
def bracketPairs : List (Char × Char) :=
  [('(', ')'), ('[', ']'), ('\x7b', '\x7d')]

def Opens (c : Char) : Prop :=
  c ∈ bracketPairs.map (·.1)

def Closes (c : Char) : Prop :=
  c ∈ bracketPairs.map (·.2)

instance (c : Char) : Decidable (Opens c) :=
  inferInstanceAs (Decidable (c ∈ _))

instance (c : Char) : Decidable (Closes c) :=
  inferInstanceAs (Decidable (c ∈ _))

/-- A word of brackets in which every bracket has its partner. -/
inductive Matched : List Char → Prop
  | nil : Matched []
  | cons {o c : Char} {inner rest : List Char} (hp : (o, c) ∈ bracketPairs) (hi : Matched inner)
    (hr : Matched rest) : Matched (o :: (inner ++ c :: rest))

/-- Brackets and their lines, of which some are left open, the last one first. -/
inductive Leaves : List (Char × Nat) → List Opening → Prop
  | matched {w : List (Char × Nat)} (h : Matched (w.map (·.1))) : Leaves w []
  | opening {w v : List (Char × Nat)} {os : List Opening} {o : Char} {line : Nat}
    (hw : Leaves w os) (ho : Opens o) (hv : Matched (v.map (·.1))) :
    Leaves (w ++ (o, line) :: v) (⟨o, line⟩ :: os)

/-- A line ends inside a literal, and no backslash takes its end. -/
def Breaks (q : Char) (cs : List Char) : Prop :=
  ∃ before after, cs = before ++ '\n' :: after ∧ Content q before

namespace Segment

def IsBroken : Segment → Prop
  | literal double cs _ => Breaks (quoteOf double) cs
  | _ => False

/-- The bracket that a segment of code is. -/
def bracket? : Segment → Option Char
  | code c => if Opens c ∨ Closes c then some c else none
  | _ => none

end Segment

/-- The line on which a text ends. -/
def lineOf (cs : List Char) : Nat :=
  1 + cs.count '\n'

/-- The brackets in code with their lines, from a line on. -/
def bracketsFrom (line : Nat) : List Segment → List (Char × Nat)
  | [] => []
  | s :: ss => s.bracket?.toList.map (·, line) ++ bracketsFrom (line + s.text.count '\n') ss

def brackets (ss : List Segment) : List (Char × Nat) :=
  bracketsFrom 1 ss

/-- A segment at fault after others without a fault, the line of the fault, and what it is. -/
inductive Offends (before : List Segment) : Segment → Nat → Fault → Prop
  | unexpected {c : Char} (hc : Closes c) (hl : Leaves (brackets before) []) :
    Offends before (.code c) (lineOf (before.flatMap Segment.text)) (.unexpectedBracket c)
  | mismatched {c : Char} {o : Opening} {os : List Opening} (hc : Closes c)
    (hl : Leaves (brackets before) (o :: os)) (hp : (o.bracket, c) ∉ bracketPairs) :
    Offends before (.code c) (lineOf (before.flatMap Segment.text))
      (.mismatchedBracket c o.bracket o.line)
  | literal {double closed : Bool} {start rest : List Char} {os : List Opening}
    (hl : Leaves (brackets before) os) (hc : Content (quoteOf double) start)
    (hn : ¬ Breaks (quoteOf double) start) :
    Offends before (.literal double (start ++ '\n' :: rest) closed)
      (lineOf (before.flatMap Segment.text ++ quoteOf double :: start)) .unterminatedLiteral

/-- What is wrong with the segments of a text, and on which line: the first one at fault, or a
bracket or a comment that is still open after the last one. -/
inductive Reported (ss : List Segment) : Nat → Fault → Prop
  | offence {before after : List Segment} {s : Segment} {line : Nat} {fault : Fault}
    (hs : ss = before ++ s :: after) (hb : ∀ s ∈ before, ¬ s.IsBroken)
    (h : Offends before s line fault) : Reported ss line fault
  | unclosed {o : Opening} {os : List Opening} (hb : ∀ s ∈ ss, ¬ s.IsBroken)
    (hl : Leaves (brackets ss) (o :: os)) : Reported ss o.line (.unclosedBracket o.bracket)
  | comment {cs : List Char} (hs : .blockComment cs false ∈ ss) (hb : ∀ s ∈ ss, ¬ s.IsBroken)
    (hl : Leaves (brackets ss) []) :
    Reported ss (lineOf (ss.flatMap Segment.text)) .unterminatedComment

section Pairs

variable {o c : Char}

theorem isOpening_iff : isOpening c ↔ Opens c := by
  simp [isOpening, Opens, bracketPairs, or_assoc]

theorem isClosing_iff : isClosing c ↔ Closes c := by
  simp [isClosing, Closes, bracketPairs, or_assoc]

theorem mem_bracketPairs_iff : (o, c) ∈ bracketPairs ↔ Closes c ∧ o = partner c := by
  constructor
  · intro h
    refine ⟨List.mem_map_of_mem h, ?_⟩
    simp only [bracketPairs, List.mem_cons, Prod.mk.injEq, List.not_mem_nil, or_false] at h
    rcases h with ⟨rfl, rfl⟩ | ⟨rfl, rfl⟩ | ⟨rfl, rfl⟩ <;> rfl
  · rintro ⟨hc, rfl⟩
    simp only [Closes, bracketPairs, List.map_cons, List.map_nil, List.mem_cons, List.not_mem_nil,
      or_false] at hc
    rcases hc with rfl | rfl | rfl <;> decide

theorem not_isOpening_of_closes (h : Closes c) : isOpening c = false := by
  simp only [Closes, bracketPairs, List.map_cons, List.map_nil, List.mem_cons, List.not_mem_nil,
    or_false] at h
  rcases h with rfl | rfl | rfl <;> rfl

end Pairs

section Words

variable {u v : List Char} {w : List (Char × Nat)} {os os' : List Opening} {o : Opening}
  {b : Char × Nat}

theorem Matched.append (h : Matched u) (h' : Matched v) : Matched (u ++ v) := by
  induction h with
  | nil => exact h'
  | cons hp hi _ _ ih =>
    rw [List.cons_append, List.append_assoc, List.cons_append]
    exact .cons hp hi ih

theorem Leaves.append (h : Leaves w os) {v : List (Char × Nat)} (hv : Matched (v.map (·.1))) :
    Leaves (w ++ v) os := by
  cases h with
  | matched h => exact .matched (by rw [List.map_append]; exact h.append hv)
  | @opening w v' os o line hw ho hv' =>
    rw [List.append_assoc, List.cons_append]
    exact .opening hw ho (by rw [List.map_append]; exact hv'.append hv)

/-- The brackets that are open after one more. -/
def pass (os : List Opening) (b : Char × Nat) : Option (List Opening) :=
  if isOpening b.1 then some (⟨b.1, b.2⟩ :: os) else (closeBracket b.1 b.2 os).toOption

def passAll (os : List Opening) (w : List (Char × Nat)) : Option (List Opening) :=
  w.foldlM pass os

theorem passAll_cons (os : List Opening) (b : Char × Nat) (w : List (Char × Nat)) :
    passAll os (b :: w) = (pass os b).bind (passAll · w) :=
  List.foldlM_cons

theorem passAll_append (os : List Opening) (w w' : List (Char × Nat)) :
    passAll os (w ++ w') = (passAll os w).bind (passAll · w') :=
  List.foldlM_append

theorem passAll_singleton (os : List Opening) (b : Char × Nat) :
    passAll os [b] = pass os b := by
  rw [passAll_cons]
  cases pass os b <;> rfl

theorem pass_opening (h : Opens b.1) : pass os b = some (⟨b.1, b.2⟩ :: os) :=
  if_pos (isOpening_iff.mpr h)

theorem pass_closing (h : Closes b.1) : pass os b = (closeBracket b.1 b.2 os).toOption := by
  rw [pass, if_neg (by simp [not_isOpening_of_closes h])]

theorem closeBracket_eq_some_iff {c : Char} {line : Nat} :
    (closeBracket c line os).toOption = some os' ↔
      ∃ o, os = o :: os' ∧ o.bracket = partner c := by
  cases os with
  | nil => simp [closeBracket, Except.toOption]
  | cons o os =>
    rw [closeBracket]
    split
    · next h =>
      simp only [Except.toOption, Option.some.injEq, List.cons.injEq]
      constructor
      · rintro rfl
        exact ⟨o, ⟨rfl, rfl⟩, h⟩
      · rintro ⟨_, ⟨-, rfl⟩, -⟩
        rfl
    · next h =>
      simp only [Except.toOption, List.cons.injEq, reduceCtorEq, false_iff]
      rintro ⟨_, ⟨rfl, -⟩, hp⟩
      exact h hp

/-- Matched brackets are passed without a trace. -/
theorem Matched.passAll (h : Matched u) (hw : w.map (·.1) = u) (os : List Opening) :
    passAll os w = some os := by
  induction h generalizing w os with
  | nil =>
    obtain rfl := List.map_eq_nil_iff.mp hw
    rfl
  | @cons o c inner rest hp _ _ ihi ihr =>
    obtain ⟨hc, hpartner⟩ := mem_bracketPairs_iff.mp hp
    obtain ⟨b, w, rfl, rfl, hinner⟩ := List.map_eq_cons_iff.mp hw
    obtain ⟨wi, w, rfl, hi, hrest⟩ := List.map_eq_append_iff.mp hinner
    obtain ⟨b', wr, rfl, rfl, hr⟩ := List.map_eq_cons_iff.mp hrest
    have hclose : pass (⟨b.1, b.2⟩ :: os) b' = some os := by
      rw [pass_closing hc, closeBracket_eq_some_iff]
      exact ⟨_, rfl, hpartner⟩
    rw [passAll_cons, pass_opening (List.mem_map_of_mem hp), Option.bind_some, passAll_append,
      ihi hi, Option.bind_some, passAll_cons, hclose, Option.bind_some, ihr hr]

/-- What brackets leave open is told by passing them one by one. -/
theorem leaves_iff (hw : ∀ b ∈ w, Opens b.1 ∨ Closes b.1) :
    Leaves w os ↔ passAll [] w = some os := by
  constructor
  · intro h
    induction h with
    | matched h => exact h.passAll rfl []
    | @opening w v os o line _ ho hv ih =>
      rw [passAll_append, ih fun b hb => hw b (List.mem_append_left _ hb), Option.bind_some,
        passAll_cons, pass_opening ho, Option.bind_some, hv.passAll rfl]
  · intro h
    induction w using List.reverseRecOn generalizing os with
    | nil =>
      obtain rfl : [] = os := Option.some.inj h
      exact .matched .nil
    | append_singleton w b ih =>
      rw [passAll_append, Option.bind_eq_some_iff] at h
      obtain ⟨opened, hopened, h⟩ := h
      have hleaves := ih (fun b hb => hw b (List.mem_append_left _ hb)) hopened
      rw [passAll_cons, Option.bind_eq_some_iff] at h
      obtain ⟨os', hb, h⟩ := h
      obtain rfl : os' = os := Option.some.inj h
      rcases hw b (by simp) with ho | hc
      · rw [pass_opening ho] at hb
        obtain rfl := Option.some.inj hb
        exact .opening hleaves ho .nil
      · rw [pass_closing hc, closeBracket_eq_some_iff] at hb
        obtain ⟨o, rfl, hp⟩ := hb
        cases hleaves with
        | @opening w v _ o line hw ho hv =>
          rw [List.append_assoc, List.cons_append]
          refine hw.append ?_
          have hmatched := Matched.cons (mem_bracketPairs_iff.mpr ⟨hc, hp⟩) hv .nil
          simpa using hmatched

end Words

section Breaks

variable {q c : Char} {cs ds : List Char}

theorem Breaks.append (h : Breaks q cs) (ds : List Char) : Breaks q (cs ++ ds) := by
  obtain ⟨before, after, rfl, hc⟩ := h
  exact ⟨before, after ++ ds, by simp, hc⟩

theorem breaks_cons (hq : c ≠ q) (hb : c ≠ '\\') (h : Breaks q cs) : Breaks q (c :: cs) := by
  obtain ⟨before, after, rfl, hc⟩ := h
  exact ⟨c :: before, after, rfl, .char hq hb hc⟩

theorem breaks_escape (c : Char) (h : Breaks q cs) : Breaks q ('\\' :: c :: cs) := by
  obtain ⟨before, after, rfl, hc⟩ := h
  exact ⟨'\\' :: c :: before, after, rfl, .escape c hc⟩

theorem breaks_newline (cs : List Char) : Breaks q ('\n' :: cs) :=
  ⟨[], cs, rfl, .nil⟩

/-- The first line that ends inside a literal. -/
theorem Breaks.first (h : Breaks q cs) :
    ∃ start rest, cs = start ++ '\n' :: rest ∧ Content q start ∧ ¬ Breaks q start := by
  obtain ⟨start, rest, rfl, hc⟩ := h
  induction hn : start.length using Nat.strongRecOn generalizing start rest with
  | ind n ih =>
    by_cases hb : Breaks q start
    · obtain ⟨before, after, rfl, hbefore⟩ := hb
      have hlt : before.length < n := by
        rw [← hn, List.length_append, List.length_cons]
        omega
      obtain ⟨start, rest', he, hs⟩ := ih _ hlt before (after ++ '\n' :: rest) hbefore rfl
      exact ⟨start, rest', by simpa using he, hs⟩
    · exact ⟨start, rest, rfl, hc, hb⟩

end Breaks

section Scans

variable {line : Nat} {os : List Opening} {c : Char} {cs rest : List Char}

theorem lineAfter_eq (c : Char) (line : Nat) : lineAfter c line = line + [c].count '\n' := by
  rw [lineAfter, List.count_singleton]
  split <;> simp_all

theorem scanBrackets_slash (hl : ¬ ['/', '/'] <+: '/' :: rest) (hb : ¬ ['/', '*'] <+: '/' :: rest) :
    scanBrackets .code line os ('/' :: rest) = scanBrackets .code line os rest := by
  rw [scanBrackets.eq_def]
  simp only [if_true]
  split
  · exact absurd ⟨_, rfl⟩ hl
  · exact absurd ⟨_, rfl⟩ hb
  · rfl

theorem scanBrackets_lineComment (h : '\n' ∉ cs) (hr : ∀ c ∈ rest.head?, c = '\n') :
    scanBrackets .lineComment line os (cs ++ rest) = scanBrackets .code line os rest := by
  induction cs with
  | nil =>
    cases rest with
    | nil => cases os <;> rfl
    | cons c rest =>
      obtain rfl := hr c rfl
      rw [List.nil_append, scanBrackets_code (by decide)]
      rfl
  | cons c cs ih =>
    rw [List.mem_cons, not_or] at h
    rw [List.cons_append, scanBrackets, if_neg (Ne.symm h.1), lineAfter, if_neg (Ne.symm h.1)]
    exact ih h.2

/-- A star in a block comment that ends nothing, or any other character. -/
theorem scanBrackets_blockComment_cons (h : ¬ ['*', '/'] <+: c :: rest) :
    scanBrackets .blockComment line os (c :: rest) =
      scanBrackets .blockComment (lineAfter c line) os rest := by
  rw [scanBrackets.eq_def]
  dsimp only
  split
  · next hc =>
    subst hc
    split
    · exact absurd ⟨_, rfl⟩ h
    · rfl
  · rfl

theorem scanBrackets_blockComment (h : ¬ ['*', '/'] <:+: cs ++ ['*']) :
    scanBrackets .blockComment line os (cs ++ '*' :: '/' :: rest) =
      scanBrackets .code (line + cs.count '\n') os rest := by
  induction cs generalizing line with
  | nil => rfl
  | cons c cs ih =>
    rw [List.cons_append, List.infix_cons_iff, not_or] at h
    have hp : ¬ ['*', '/'] <+: c :: (cs ++ '*' :: '/' :: rest) := by
      intro hp
      have hstar : c :: (cs ++ ['*']) <+: c :: (cs ++ '*' :: '/' :: rest) := ⟨'/' :: rest, by simp⟩
      exact h.1 (List.prefix_of_prefix_length_le hp hstar (by simp))
    rw [List.cons_append, scanBrackets_blockComment_cons hp, ih h.2, lineAfter_eq, Nat.add_assoc,
      ← List.count_append]
    rfl

theorem scanBrackets_openComment (h : ¬ ['*', '/'] <:+: cs) :
    scanBrackets .blockComment line os cs = checkEnd .blockComment (line + cs.count '\n') os := by
  induction cs generalizing line with
  | nil => rfl
  | cons c cs ih =>
    rw [List.infix_cons_iff, not_or] at h
    rw [scanBrackets_blockComment_cons h.1, ih h.2, lineAfter_eq, Nat.add_assoc,
      ← List.count_append]
    rfl

variable {double : Bool}

theorem scanBrackets_escape (double : Bool) (c : Char) :
    scanBrackets (Place.literal double).region line os ('\\' :: c :: rest) =
      scanBrackets (Place.literal double).region (lineAfter c line) os rest := by
  cases double <;> rfl

/-- The content of a literal is passed over up to the first end of a line. -/
theorem scanBrackets_content (h : Content (quoteOf double) cs)
    (hb : ¬ Breaks (quoteOf double) cs) :
    scanBrackets (Place.literal double).region line os (cs ++ rest) =
      scanBrackets (Place.literal double).region (line + cs.count '\n') os rest := by
  induction h generalizing line with
  | nil => rfl
  | @char c cs hq hs _ ih =>
    have hn : c ≠ '\n' := by
      rintro rfl
      exact hb (breaks_newline cs)
    rw [List.cons_append, scanBrackets_literal double hs hn, if_neg hq,
      ih fun h => hb (breaks_cons hq hs h), List.count_cons_of_ne hn]
  | @escape c cs _ ih =>
    rw [List.cons_append, List.cons_append, scanBrackets_escape,
      ih fun h => hb (breaks_escape c h), lineAfter_eq, Nat.add_assoc, ← List.count_append,
      List.count_cons_of_ne (by decide)]
    rfl

theorem scanBrackets_break (h : Content (quoteOf double) cs) (hb : ¬ Breaks (quoteOf double) cs) :
    scanBrackets (Place.literal double).region line os (cs ++ '\n' :: rest) =
      .error (line + cs.count '\n', .unterminatedLiteral) := by
  rw [scanBrackets_content h hb]
  cases double <;> rw [Place.region, scanBrackets.eq_def] <;> simp [Region.quote]

theorem scanBrackets_close (double : Bool) :
    scanBrackets (Place.literal double).region line os (quoteOf double :: rest) =
      scanBrackets .code line os rest := by
  rw [scanBrackets_literal double (quoteOf_ne_backslash double) (by cases double <;> decide),
    if_pos rfl]

theorem scanBrackets_cutOff (h : CutOff (quoteOf double) cs) (hb : ¬ Breaks (quoteOf double) cs) :
    ∃ line', scanBrackets (Place.literal double).region line os cs =
      checkEnd (Place.literal double).region line' os := by
  rcases h with h | ⟨before, h, rfl⟩
  · rw [← List.append_nil cs, scanBrackets_content h hb]
    cases double <;> exact ⟨_, rfl⟩
  · rw [scanBrackets_content h fun h => hb (h.append _)]
    cases double <;> exact ⟨_, rfl⟩

theorem scanBrackets_quote (double : Bool) :
    scanBrackets .code line os (quoteOf double :: rest) =
      scanBrackets (Place.literal double).region line os rest := by
  rw [scanBrackets_code (by cases double <;> decide)]
  cases double <;> rfl

theorem scanBrackets_bracket (hc : Opens c ∨ Closes c) :
    scanBrackets .code line os (c :: rest) =
      if isOpening c then scanBrackets .code line (⟨c, line⟩ :: os) rest
      else match closeBracket c line os with
        | .ok os => scanBrackets .code line os rest
        | .error e => .error e := by
  rw [← isOpening_iff, ← isClosing_iff] at hc
  have hne : c ≠ '/' ∧ c ≠ '"' ∧ c ≠ '\x27' := by
    simp only [isOpening, isClosing, Bool.or_eq_true, decide_eq_true_eq] at hc
    rcases hc with ((rfl | rfl) | rfl) | ((rfl | rfl) | rfl) <;> decide
  rw [scanBrackets_code hne.1, if_neg hne.2.1, if_neg hne.2.2]
  split
  · rfl
  · next ho => exact (if_pos (hc.resolve_left ho)).trans rfl

/-- A bracket that can be passed is. -/
theorem scanBrackets_pass (hc : Opens c ∨ Closes c) {os' : List Opening}
    (hp : pass os (c, line) = some os') :
    scanBrackets .code line os (c :: rest) = scanBrackets .code line os' rest := by
  rw [scanBrackets_bracket hc]
  rcases hc with hc | hc
  · rw [pass_opening hc] at hp
    rw [if_pos (isOpening_iff.mpr hc), Option.some.inj hp]
  · rw [pass_closing hc] at hp
    rw [if_neg (by simp [not_isOpening_of_closes hc])]
    cases hclose : closeBracket c line os with
    | error e => simp [hclose, Except.toOption] at hp
    | ok opened =>
      rw [hclose] at hp
      rw [Option.some.inj hp]

/-- The line after what follows on a text. -/
theorem lineOf_append (cs ds : List Char) : lineOf (cs ++ ds) = lineOf cs + ds.count '\n' := by
  rw [lineOf, lineOf, List.count_append, Nat.add_assoc]

end Scans

section Segments

variable {line : Nat} {os os' : List Opening} {cs rest : List Char} {s : Segment}
  {before ss ts : List Segment} {fault : Fault}

theorem bracketsFrom_append (line : Nat) (ss ts : List Segment) :
    bracketsFrom line (ss ++ ts) = bracketsFrom line ss ++
      bracketsFrom (line + (ss.flatMap Segment.text).count '\n') ts := by
  induction ss generalizing line with
  | nil => rfl
  | cons s ss ih =>
    rw [List.cons_append, bracketsFrom, bracketsFrom, ih, List.flatMap_cons, List.count_append,
      List.append_assoc, Nat.add_assoc]

theorem brackets_concat (ss : List Segment) (s : Segment) : brackets (ss ++ [s]) =
    brackets ss ++ s.bracket?.toList.map (·, lineOf (ss.flatMap Segment.text)) := by
  rw [brackets, bracketsFrom_append, bracketsFrom, bracketsFrom, List.append_nil]
  rfl

theorem bracket?_eq_some_iff {c : Char} :
    s.bracket? = some c ↔ s = .code c ∧ (Opens c ∨ Closes c) := by
  cases s with
  | code d =>
    simp only [Segment.bracket?, Option.ite_none_right_eq_some, Option.some.injEq,
      Segment.code.injEq]
    constructor
    · rintro ⟨h, rfl⟩
      exact ⟨rfl, h⟩
    · rintro ⟨rfl, h⟩
      exact ⟨h, rfl⟩
  | _ => simp [Segment.bracket?]

theorem isBracket_of_mem {b : Char × Nat} (h : b ∈ bracketsFrom line ss) :
    Opens b.1 ∨ Closes b.1 := by
  induction ss generalizing line with
  | nil => simp [bracketsFrom] at h
  | cons s ss ih =>
    rw [bracketsFrom, List.mem_append] at h
    rcases h with h | h
    · obtain ⟨c, hc, rfl⟩ := List.mem_map.mp h
      exact (bracket?_eq_some_iff.mp (Option.mem_toList.mp hc)).2
    · exact ih h

theorem leaves_brackets_iff : Leaves (brackets ss) os ↔ passAll [] (brackets ss) = some os :=
  leaves_iff fun _ => isBracket_of_mem

/-- A segment that is no bracket is passed over. -/
theorem scanBrackets_segment (hs : s.Fits rest) (hclosed : s.isClosed) (hb : ¬ s.IsBroken)
    (hn : s.bracket? = none) : scanBrackets .code line os (s.text ++ rest) =
      scanBrackets .code (line + s.text.count '\n') os rest := by
  rcases s with c | body | ⟨body, closed⟩ | ⟨double, body, closed⟩
  · obtain ⟨hdouble, hsingle, hline, hblock⟩ := hs
    simp only [Segment.bracket?, ite_eq_right_iff, reduceCtorEq, imp_false, not_or,
      ← isOpening_iff, ← isClosing_iff] at hn
    rw [Segment.text, List.singleton_append]
    by_cases hc : c = '/'
    · subst hc
      exact scanBrackets_slash hline hblock
    · rw [scanBrackets_code hc, if_neg hdouble, if_neg hsingle, if_neg hn.1, if_neg hn.2,
        lineAfter_eq]
  · have hzero : (Segment.lineComment body).text.count '\n' = 0 := by
      simp [Segment.text, List.count_eq_zero.mpr hs.1]
    rw [hzero]
    exact scanBrackets_lineComment hs.1 hs.2
  · obtain rfl : closed = true := hclosed
    have hcount : (Segment.blockComment body true).text.count '\n' = body.count '\n' := by
      simp [Segment.text]
    rw [hcount, ← scanBrackets_blockComment hs]
    simp [Segment.text, scanBrackets]
  · obtain rfl : closed = true := hclosed
    have hne : quoteOf double ≠ '\n' := by cases double <;> decide
    have hcount : (Segment.literal double body true).text.count '\n' = body.count '\n' := by
      simp [Segment.text, hne]
    have htext : (Segment.literal double body true).text ++ rest =
        quoteOf double :: (body ++ quoteOf double :: rest) := by
      simp [Segment.text]
    rw [hcount, htext, scanBrackets_quote, scanBrackets_content hs hb, scanBrackets_close]

/-- Segments without a fault are passed over, and the brackets that they leave open stay. -/
theorem Partition.scans (h : Partition cs (ss ++ ts)) (hclosed : ∀ s ∈ ss, s.isClosed)
    (hb : ∀ s ∈ ss, ¬ s.IsBroken) (hp : passAll os (bracketsFrom line ss) = some os') :
    ∃ rest, Partition rest ts ∧ scanBrackets .code line os cs =
      scanBrackets .code (line + (ss.flatMap Segment.text).count '\n') os' rest := by
  induction ss generalizing cs line os with
  | nil =>
    obtain rfl : os = os' := Option.some.inj hp
    exact ⟨cs, h, rfl⟩
  | cons s ss ih =>
    obtain ⟨rest, rfl, hs, h⟩ := Partition.cons_iff.mp h
    rw [List.forall_mem_cons] at hclosed hb
    rw [bracketsFrom, passAll_append, Option.bind_eq_some_iff] at hp
    obtain ⟨os₁, hpass, hp⟩ := hp
    obtain ⟨rest', hrest, hscan⟩ := ih h hclosed.2 hb.2 hp
    refine ⟨rest', hrest, ?_⟩
    rw [List.flatMap_cons, List.count_append, ← Nat.add_assoc, ← hscan]
    cases hbracket : s.bracket? with
    | none =>
      rw [hbracket] at hpass
      obtain rfl : os = os₁ := Option.some.inj hpass
      exact scanBrackets_segment hs hclosed.1 hb.1 hbracket
    | some c =>
      rw [hbracket] at hpass
      obtain ⟨rfl, hc⟩ := bracket?_eq_some_iff.mp hbracket
      have hzero : (Segment.code c).text.count '\n' = 0 := by
        rcases hc with hc | hc
        all_goals
          rw [Segment.text, List.count_singleton, if_neg]
          rintro he
          rw [beq_iff_eq.mp he] at hc
          exact absurd hc (by decide)
      have hone : pass os (c, line) = some os₁ := (passAll_singleton os (c, line)).symm.trans hpass
      rw [hzero, Nat.add_zero]
      exact scanBrackets_pass hc hone

/-- The check stops at the first segment at fault. -/
theorem checkBrackets_of_offends (h : Offends before s line fault)
    (hp : Partition cs (before ++ s :: ts)) (hb : ∀ s ∈ before, ¬ s.IsBroken) :
    checkBrackets cs = .error (line, fault) := by
  have hclosed := hp.isClosed (List.cons_ne_nil s ts)
  have hrun : ∀ {os}, Leaves (brackets before) os → ∃ rest, checkBrackets cs =
      scanBrackets .code (lineOf (before.flatMap Segment.text)) os (s.text ++ rest) := by
    intro os hl
    obtain ⟨_, hrest, hscan⟩ := hp.scans hclosed hb (leaves_brackets_iff.mp hl)
    obtain ⟨rest, rfl, -⟩ := Partition.cons_iff.mp hrest
    exact ⟨rest, hscan⟩
  cases h with
  | @unexpected c hc hl =>
    obtain ⟨rest, hscan⟩ := hrun hl
    rw [hscan, Segment.text, List.singleton_append, scanBrackets_bracket (Or.inr hc),
      if_neg (by simp [not_isOpening_of_closes hc])]
    rfl
  | @mismatched c o os hc hl hne =>
    obtain ⟨rest, hscan⟩ := hrun hl
    rw [hscan, Segment.text, List.singleton_append, scanBrackets_bracket (Or.inr hc),
      if_neg (by simp [not_isOpening_of_closes hc]), closeBracket,
      if_neg fun hp => hne (mem_bracketPairs_iff.mpr ⟨hc, hp⟩)]
  | @literal double closed start rest os hl hc hn =>
    obtain ⟨tail, hscan⟩ := hrun hl
    have htext : (Segment.literal double (start ++ '\n' :: rest) closed).text ++ tail =
        quoteOf double :: (start ++ '\n' ::
          (rest ++ ((if closed then [quoteOf double] else []) ++ tail))) := by
      simp [Segment.text]
    have hne : quoteOf double ≠ '\n' := by cases double <;> decide
    rw [hscan, htext, scanBrackets_quote, scanBrackets_break hc hn, lineOf_append,
      List.count_cons_of_ne hne]

/-- A segment is at fault, or it leaves some brackets open. -/
theorem offends_or_leaves (hl : Leaves (brackets before) os) (s : Segment) :
    (∃ line fault, Offends before s line fault) ∨
      ¬ s.IsBroken ∧ ∃ os', Leaves (brackets (before ++ [s])) os' := by
  cases hbracket : s.bracket? with
  | some c =>
    obtain ⟨rfl, hc | hc⟩ := bracket?_eq_some_iff.mp hbracket
    · refine Or.inr ⟨id, ?_⟩
      rw [brackets_concat, hbracket]
      exact ⟨_, .opening hl hc .nil⟩
    · match os with
      | [] => exact Or.inl ⟨_, _, .unexpected hc hl⟩
      | o :: os =>
        by_cases hp : (o.bracket, c) ∈ bracketPairs
        · refine Or.inr ⟨id, os, leaves_brackets_iff.mpr ?_⟩
          rw [brackets_concat, hbracket, passAll_append, leaves_brackets_iff.mp hl,
            Option.bind_some]
          refine (passAll_singleton _ _).trans ?_
          rw [pass_closing hc, closeBracket_eq_some_iff]
          exact ⟨o, rfl, (mem_bracketPairs_iff.mp hp).2⟩
        · exact Or.inl ⟨_, _, .mismatched hc hl hp⟩
  | none =>
    by_cases hb : s.IsBroken
    · cases s with
      | literal double body closed =>
        obtain ⟨start, rest, rfl, hc, hn⟩ := hb.first
        exact Or.inl ⟨_, _, .literal hl hc hn⟩
      | _ => exact hb.elim
    · refine Or.inr ⟨hb, os, ?_⟩
      rw [brackets_concat, hbracket]
      simpa using hl

/-- A segment of a text is the first at fault, or none is. -/
theorem exists_offends (ss : List Segment) :
    (∃ before s after line fault, ss = before ++ s :: after ∧ (∀ s ∈ before, ¬ s.IsBroken) ∧
      Offends before s line fault) ∨
    (∀ s ∈ ss, ¬ s.IsBroken) ∧ ∃ os, Leaves (brackets ss) os := by
  induction ss using List.reverseRecOn with
  | nil => exact Or.inr ⟨by simp, [], .matched .nil⟩
  | append_singleton ss s ih =>
    rcases ih with ⟨before, t, after, line, fault, rfl, hb, h⟩ | ⟨hb, os, hl⟩
    · exact Or.inl ⟨before, t, after ++ [s], line, fault, by simp, hb, h⟩
    · rcases offends_or_leaves hl s with ⟨line, fault, h⟩ | ⟨hs, h⟩
      · exact Or.inl ⟨ss, s, [], line, fault, rfl, hb, h⟩
      · refine Or.inr ⟨fun t ht => ?_, h⟩
        rcases List.mem_append.mp ht with ht | ht
        · exact hb t ht
        · rwa [List.mem_singleton.mp ht]

/-- The text up to a last segment that it cuts off. -/
theorem Partition.scans_last (h : Partition cs (before ++ [s]))
    (hb : ∀ s ∈ before, ¬ s.IsBroken) (hl : Leaves (brackets before) os) :
    s.Fits [] ∧ checkBrackets cs =
      scanBrackets .code (lineOf (before.flatMap Segment.text)) os s.text := by
  obtain ⟨rest, hrest, hscan⟩ := h.scans (h.isClosed (List.cons_ne_nil s [])) hb
    (leaves_brackets_iff.mp hl)
  obtain ⟨rest, rfl, hs, hnil⟩ := Partition.cons_iff.mp hrest
  obtain rfl := hnil.nil_right
  rw [List.append_nil] at hscan
  exact ⟨hs, hscan⟩

/-- A segment that the end of the text cuts off is the last one, and no bracket. -/
theorem Partition.eq_concat (h : Partition cs ss) (hs : s ∈ ss) (hclosed : s.isClosed = false) :
    ∃ before, ss = before ++ [s] ∧ brackets ss = brackets before := by
  obtain ⟨before, after, rfl⟩ := List.append_of_mem hs
  cases after with
  | cons t after =>
    rw [← List.singleton_append, ← List.append_assoc] at h
    simp [h.isClosed (List.cons_ne_nil t after) s (by simp)] at hclosed
  | nil =>
    have hnone : s.bracket? = none := by
      cases s with
      | code c => simp [Segment.isClosed] at hclosed
      | _ => rfl
    refine ⟨before, rfl, ?_⟩
    rw [brackets_concat, hnone]
    exact List.append_nil _

variable (h : Partition cs ss) (hb : ∀ s ∈ ss, ¬ s.IsBroken) (hl : Leaves (brackets ss) os)

include h hb hl

theorem checkBrackets_of_open {body : List Char} (hs : .blockComment body false ∈ ss) :
    checkBrackets cs = checkEnd .blockComment (lineOf cs) os := by
  obtain ⟨before, rfl, he⟩ := h.eq_concat hs rfl
  rw [he] at hl
  obtain ⟨⟨hbody, -⟩, hscan⟩ :=
    h.scans_last (fun s hs => hb s (List.mem_append_left _ hs)) hl
  have hline : lineOf cs = lineOf (before.flatMap Segment.text) + body.count '\n' := by
    rw [← h.text, List.flatMap_append, lineOf_append]
    simp [Segment.text]
  rw [hscan, hline, ← scanBrackets_openComment hbody]
  simp [Segment.text, scanBrackets]

theorem checkBrackets_of_ended (hn : ∀ body, .blockComment body false ∉ ss) :
    ∃ region line, region ≠ .blockComment ∧ checkBrackets cs = checkEnd region line os := by
  by_cases hclosed : ∀ s ∈ ss, s.isClosed
  · rw [← List.append_nil ss] at h
    obtain ⟨rest, hrest, hscan⟩ := h.scans hclosed hb (leaves_brackets_iff.mp hl)
    obtain rfl := hrest.nil_right
    exact ⟨.code, _, by decide, hscan⟩
  · push Not at hclosed
    obtain ⟨s, hs, hopen⟩ := hclosed
    rw [ne_eq, Bool.not_eq_true] at hopen
    obtain ⟨before, rfl, he⟩ := h.eq_concat hs hopen
    rw [he] at hl
    obtain ⟨hfits, hscan⟩ :=
      h.scans_last (fun s hs => hb s (List.mem_append_left _ hs)) hl
    rcases s with c | body | ⟨body, closed⟩ | ⟨double, body, closed⟩
    · simp [Segment.isClosed] at hopen
    · simp [Segment.isClosed] at hopen
    · obtain rfl : closed = false := hopen
      exact absurd hs (hn body)
    · obtain rfl : closed = false := hopen
      rw [Segment.text, if_neg (by decide), List.append_nil, scanBrackets_quote] at hscan
      obtain ⟨line, hend⟩ := scanBrackets_cutOff hfits.1 (hb _ hs)
      exact ⟨_, line, by cases double <;> decide, hscan.trans hend⟩

omit hl in
theorem checkBrackets_of_unclosed {o : Opening} (hl : Leaves (brackets ss) (o :: os)) :
    checkBrackets cs = .error (o.line, .unclosedBracket o.bracket) := by
  by_cases hs : ∃ body, .blockComment body false ∈ ss
  · obtain ⟨body, hs⟩ := hs
    exact checkBrackets_of_open h hb hl hs
  · obtain ⟨region, line, -, hend⟩ := checkBrackets_of_ended h hb hl (not_exists.mp hs)
    exact hend

end Segments

theorem leaves_nil_iff {w : List (Char × Nat)} : Leaves w [] ↔ Matched (w.map (·.1)) := by
  constructor
  · intro h
    cases h with
    | matched h => exact h
  · exact .matched

theorem checkEnd_eq_ok_iff {region : Region} {line : Nat} {os : List Opening} :
    checkEnd region line os = .ok () ↔ os = [] ∧ region ≠ .blockComment := by
  cases os with
  | nil =>
    rw [checkEnd]
    split <;> simp [*]
  | cons o os => simp [checkEnd]

section Exact

variable {cs : List Char} {ss : List Segment}

/-- The check passes just if the brackets in code are matched, no literal goes over the end of a
line, and no comment is still open at the end. -/
theorem checkBrackets_eq_ok_iff (h : Partition cs ss) : checkBrackets cs = .ok () ↔
    Matched ((brackets ss).map (·.1)) ∧ (∀ s ∈ ss, ¬ s.IsBroken) ∧
      ∀ body, .blockComment body false ∉ ss := by
  constructor
  · intro hok
    rcases exists_offends ss with ⟨before, s, after, line, fault, rfl, hb, hs⟩ | ⟨hb, os, hl⟩
    · simp [checkBrackets_of_offends hs h hb] at hok
    · have hended : ∀ body, .blockComment body false ∉ ss := by
        intro body hs
        rw [checkBrackets_of_open h hb hl hs, checkEnd_eq_ok_iff] at hok
        exact hok.2 rfl
      obtain ⟨region, line, -, hend⟩ := checkBrackets_of_ended h hb hl hended
      obtain rfl := (checkEnd_eq_ok_iff.mp (hend.symm.trans hok)).1
      exact ⟨leaves_nil_iff.mp hl, hb, hended⟩
  · rintro ⟨hm, hb, hended⟩
    obtain ⟨region, line, hr, hend⟩ :=
      checkBrackets_of_ended h hb (leaves_nil_iff.mpr hm) hended
    exact hend.trans (checkEnd_eq_ok_iff.mpr ⟨rfl, hr⟩)

/-- What the check reports is the first fault. -/
theorem checkBrackets_eq_error_iff (h : Partition cs ss) {line : Nat} {fault : Fault} :
    checkBrackets cs = .error (line, fault) ↔ Reported ss line fault := by
  constructor
  · intro herr
    rcases exists_offends ss with ⟨before, s, after, line', fault', rfl, hb, hs⟩ | ⟨hb, os, hl⟩
    · rw [checkBrackets_of_offends hs h hb] at herr
      cases herr
      exact .offence rfl hb hs
    · cases os with
      | cons o os =>
        rw [checkBrackets_of_unclosed h hb hl] at herr
        cases herr
        exact .unclosed hb hl
      | nil =>
        by_cases hs : ∃ body, .blockComment body false ∈ ss
        · obtain ⟨body, hs⟩ := hs
          rw [checkBrackets_of_open h hb hl hs, ← h.text] at herr
          cases herr
          exact .comment hs hb hl
        · obtain ⟨region, line, hr, hend⟩ := checkBrackets_of_ended h hb hl (not_exists.mp hs)
          rw [hend, checkEnd_eq_ok_iff.mpr ⟨rfl, hr⟩] at herr
          cases herr
  · intro hreported
    cases hreported with
    | offence hss hb hs =>
      subst hss
      exact checkBrackets_of_offends hs h hb
    | unclosed hb hl => exact checkBrackets_of_unclosed h hb hl
    | comment hs hb hl =>
      rw [checkBrackets_of_open h hb hl hs, ← h.text]
      rfl

end Exact

/-- Every text falls into code, comments and literals in one way, and the check of its brackets
passes just if those in code are matched, no literal goes over the end of a line, and no comment is
still open at the end. Otherwise, it reports the first fault. -/
theorem checkBrackets_exact (content : List Char) :
    ∃ ss, Partition content ss ∧ (∀ ss', Partition content ss' → ss' = ss) ∧
      (checkBrackets content = .ok () ↔
        Matched ((brackets ss).map (·.1)) ∧ (∀ s ∈ ss, ¬ s.IsBroken) ∧
          ∀ cs, .blockComment cs false ∉ ss) ∧
      ∀ line fault, checkBrackets content = .error (line, fault) ↔ Reported ss line fault := by
  obtain ⟨ss, h⟩ := exists_partition content
  exact ⟨ss, h, fun _ h' => h.unique h', checkBrackets_eq_ok_iff h,
    fun _ _ => checkBrackets_eq_error_iff h⟩

end ProtoJava.Java
