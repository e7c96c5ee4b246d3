import Mathlib.Data.List.Infix
import ProtoJava.Proofs.Java.Scanning

/-! # Segments of source texts

A source text is code, comments and literals, one after the other. A line comment goes up to the
end of its line, a block comment through the first end of a comment, and a literal to the first of
its quotes that no backslash takes. Every text falls into such segments in exactly one way.
-/

namespace ProtoJava.Java

/-- What stands between the quotes of a literal: characters other than the quote, and backslashes
with the characters they take. -/
inductive Content (q : Char) : List Char → Prop
  | nil : Content q []
  | char {c : Char} {cs : List Char} (hq : c ≠ q) (hb : c ≠ '\\') (h : Content q cs) :
    Content q (c :: cs)
  | escape (c : Char) {cs : List Char} (h : Content q cs) : Content q ('\\' :: c :: cs)

/-- What stands in a literal that the end of the text cuts off. -/
def CutOff (q : Char) (cs : List Char) : Prop :=
  Content q cs ∨ ∃ before, Content q before ∧ cs = before ++ ['\\']

section Literals

variable {q c d : Char} {cs ds r s : List Char}

theorem content_cons_iff (hc : c ≠ '\\') : Content q (c :: cs) ↔ c ≠ q ∧ Content q cs := by
  constructor
  · intro h
    cases h with
    | char hq _ h => exact ⟨hq, h⟩
    | escape => exact absurd rfl hc
  · exact fun h => .char h.1 hc h.2

theorem content_escape_iff : Content q ('\\' :: c :: cs) ↔ Content q cs := by
  constructor
  · intro h
    cases h with
    | char _ hb _ => exact absurd rfl hb
    | escape _ h => exact h
  · exact .escape c

theorem not_content_backslash : ¬ Content q ['\\'] := by
  intro h
  cases h with
  | char _ hb _ => exact hb rfl

theorem cutOff_cons_iff (hc : c ≠ '\\') : CutOff q (c :: cs) ↔ c ≠ q ∧ CutOff q cs := by
  rw [CutOff, CutOff, content_cons_iff hc]
  constructor
  · rintro (⟨hq, h⟩ | ⟨before, h, he⟩)
    · exact ⟨hq, Or.inl h⟩
    · cases before with
      | nil => exact absurd (List.cons.inj he).1 hc
      | cons b before =>
        obtain ⟨rfl, rfl⟩ := List.cons.inj he
        obtain ⟨hq, h⟩ := (content_cons_iff hc).mp h
        exact ⟨hq, Or.inr ⟨before, h, rfl⟩⟩
  · rintro ⟨hq, h | ⟨before, h, rfl⟩⟩
    · exact Or.inl ⟨hq, h⟩
    · exact Or.inr ⟨c :: before, .char hq hc h, rfl⟩

theorem cutOff_escape_iff : CutOff q ('\\' :: c :: cs) ↔ CutOff q cs := by
  rw [CutOff, CutOff, content_escape_iff]
  refine or_congr_right ⟨?_, ?_⟩
  · rintro ⟨before, h, he⟩
    match before with
    | [] => simp at he
    | [b] =>
      obtain ⟨rfl, -⟩ := List.cons.inj he
      exact absurd h not_content_backslash
    | b :: b' :: before =>
      obtain ⟨rfl, rfl, rfl⟩ : '\\' = b ∧ c = b' ∧ cs = before ++ ['\\'] := by simpa using he
      exact ⟨before, content_escape_iff.mp h, rfl⟩
  · rintro ⟨before, h, rfl⟩
    exact ⟨'\\' :: c :: before, .escape c h, rfl⟩

theorem cutOff_backslash : CutOff q ['\\'] :=
  Or.inr ⟨[], .nil, rfl⟩

/-- A literal is closed by its quote, or cut off. -/
theorem closed_or_cutOff (q : Char) : ∀ cs : List Char,
    (∃ body rest, cs = body ++ q :: rest ∧ Content q body) ∨ CutOff q cs
  | [] => Or.inr (Or.inl .nil)
  | c :: cs => by
    by_cases hq : c = q
    · exact Or.inl ⟨[], cs, by rw [hq]; rfl, .nil⟩
    · by_cases hb : c = '\\'
      · match cs with
        | [] => exact Or.inr (hb ▸ cutOff_backslash)
        | d :: ds =>
          rcases closed_or_cutOff q ds with ⟨body, rest, rfl, h⟩ | h
          · exact Or.inl ⟨c :: d :: body, rest, rfl, hb ▸ .escape d h⟩
          · exact Or.inr (hb ▸ cutOff_escape_iff.mpr h)
      · rcases closed_or_cutOff q cs with ⟨body, rest, rfl, h⟩ | h
        · exact Or.inl ⟨c :: body, rest, rfl, .char hq hb h⟩
        · exact Or.inr ((cutOff_cons_iff hb).mpr ⟨hq, h⟩)

variable (hq : q ≠ '\\')

include hq

/-- The quote that closes a literal does not stand in it. -/
theorem Content.not_cutOff (h : Content q cs) : ¬ CutOff q (cs ++ q :: r) := by
  induction h with
  | nil => simp [cutOff_cons_iff hq]
  | char _ hb _ ih => exact fun h => ih ((cutOff_cons_iff hb).mp h).2
  | escape c _ ih => exact fun h => ih (cutOff_escape_iff.mp h)

theorem Content.unique (h : Content q cs) (h' : Content q ds) (he : cs ++ q :: r = ds ++ q :: s) :
    cs = ds := by
  induction h generalizing ds with
  | nil =>
    cases h' with
    | nil => rfl
    | char hne _ _ => exact absurd (List.cons.inj he).1.symm hne
    | escape c _ => exact absurd (List.cons.inj he).1 hq
  | @char c cs hne hb _ ih =>
    cases h' with
    | nil => exact absurd (List.cons.inj he).1 hne
    | @char _ ds _ _ h' =>
      obtain ⟨rfl, hrest⟩ : c = _ ∧ cs ++ q :: r = ds ++ q :: s := List.cons.inj he
      rw [ih h' hrest]
    | escape _ _ => exact absurd (List.cons.inj he).1 hb
  | @escape c cs _ ih =>
    cases h' with
    | nil => exact absurd (List.cons.inj he).1.symm hq
    | char _ hb _ => exact absurd (List.cons.inj he).1.symm hb
    | @escape _ ds h' =>
      obtain ⟨rfl, hrest⟩ : c = _ ∧ cs ++ q :: r = ds ++ q :: s :=
        List.cons.inj (List.cons.inj he).2
      rw [ih h' hrest]

end Literals

section Comments

variable {c : Char} {cs ds r s : List Char}

/-- A block comment is ended, or goes to the end of the text. -/
theorem ended_or_open (cs : List Char) :
    (∃ body rest, cs = body ++ '*' :: '/' :: rest ∧ ¬ ['*', '/'] <:+: body ++ ['*']) ∨
      ¬ ['*', '/'] <:+: cs := by
  induction cs with
  | nil => exact Or.inr (by simp)
  | cons c cs ih =>
    by_cases hp : ['*', '/'] <+: c :: cs
    · obtain ⟨rest, he⟩ := hp
      exact Or.inl ⟨[], rest, he.symm, by decide⟩
    · rcases ih with ⟨body, rest, rfl, h⟩ | h
      · refine Or.inl ⟨c :: body, rest, rfl, ?_⟩
        rw [List.cons_append, List.infix_cons_iff, not_or]
        refine ⟨fun hp' => hp (hp'.trans ⟨'/' :: rest, by simp⟩), h⟩
      · exact Or.inr (by rw [List.infix_cons_iff, not_or]; exact ⟨hp, h⟩)

/-- No end of a comment stands in what comes before the first one. -/
theorem eq_of_ended (h : ¬ ['*', '/'] <:+: cs ++ ['*']) (h' : ¬ ['*', '/'] <:+: ds ++ ['*'])
    (he : cs ++ '*' :: '/' :: r = ds ++ '*' :: '/' :: s) : cs = ds := by
  -- the longer one would go on with a star, and then hold the end of the shorter one
  have hshort : ∀ {a b t u : List Char}, ¬ ['*', '/'] <:+: b ++ ['*'] → b = a ++ t →
      '*' :: '/' :: u = t ++ '*' :: '/' :: s ∨ '*' :: '/' :: u = t ++ '*' :: '/' :: r → t = [] := by
    intro a b t u hb hbt hu
    match t with
    | [] => rfl
    | [x] => simp at hu
    | x :: y :: t =>
      obtain ⟨rfl, rfl⟩ : '*' = x ∧ '/' = y := by
        rcases hu with hu | hu <;> simp at hu <;> exact ⟨hu.1, hu.2.1⟩
      exact absurd ⟨a, t ++ ['*'], by simp [hbt]⟩ hb
  rcases List.append_eq_append_iff.mp he with ⟨t, ht, hu⟩ | ⟨t, ht, hu⟩
  · rw [ht, hshort h' ht (Or.inl hu), List.append_nil]
  · rw [ht, hshort h ht (Or.inr hu), List.append_nil]

/-- A line comment goes to the end of its line, or of the text. -/
theorem exists_line (cs : List Char) :
    ∃ body rest, cs = body ++ rest ∧ '\n' ∉ body ∧ ∀ c ∈ rest.head?, c = '\n' := by
  induction cs with
  | nil => exact ⟨[], [], rfl, by simp, by simp⟩
  | cons c cs ih =>
    by_cases hc : c = '\n'
    · exact ⟨[], c :: cs, rfl, by simp, by simpa using hc⟩
    · obtain ⟨body, rest, rfl, hbody, hrest⟩ := ih
      exact ⟨c :: body, rest, rfl, by simp [Ne.symm hc, hbody], hrest⟩

theorem eq_of_line (h : '\n' ∉ cs) (h' : '\n' ∉ ds) (hr : ∀ c ∈ r.head?, c = '\n')
    (hs : ∀ c ∈ s.head?, c = '\n') (he : cs ++ r = ds ++ s) : cs = ds := by
  have hline : ∀ {a b : List Char}, '\n' ∉ a → (∀ c ∈ b.head?, c = '\n') →
      (a ++ b).takeWhile (· ≠ '\n') = a := by
    intro a b ha hb
    rw [List.takeWhile_append_of_pos]
    · cases b with
      | nil => simp
      | cons c b =>
        obtain rfl := hb c rfl
        simp
    · intro c hc
      have hne : c ≠ '\n' := fun h => ha (h ▸ hc)
      simpa using hne
  rw [← hline h hr, he, hline h' hs]

end Comments

/-- A segment of a source text; of comments and literals, the text between their marks. -/
inductive Segment
  | code (c : Char)
  | lineComment (cs : List Char)
  | blockComment (cs : List Char) (closed : Bool)
  | literal (double : Bool) (cs : List Char) (closed : Bool)
deriving Repr, DecidableEq, Inhabited

namespace Segment

def text : Segment → List Char
  | code c => [c]
  | lineComment cs => '/' :: '/' :: cs
  | blockComment cs closed => '/' :: '*' :: (cs ++ if closed then ['*', '/'] else [])
  | literal double cs closed =>
    quoteOf double :: (cs ++ if closed then [quoteOf double] else [])

/-- Whether the segment ends before the text does. -/
def isClosed : Segment → Bool
  | blockComment _ closed | literal _ _ closed => closed
  | _ => true

/-- Whether a segment is one before the rest of a text. -/
def Fits (rest : List Char) : Segment → Prop
  | code c => c ≠ '"' ∧ c ≠ '\x27' ∧ ¬ ['/', '/'] <+: c :: rest ∧ ¬ ['/', '*'] <+: c :: rest
  | lineComment cs => '\n' ∉ cs ∧ ∀ c ∈ rest.head?, c = '\n'
  | blockComment cs true => ¬ ['*', '/'] <:+: cs ++ ['*']
  | blockComment cs false => ¬ ['*', '/'] <:+: cs ∧ rest = []
  | literal double cs true => Content (quoteOf double) cs
  | literal double cs false => CutOff (quoteOf double) cs ∧ rest = []

theorem text_ne_nil (s : Segment) : s.text ≠ [] := by
  cases s <;> simp [text]

theorem isClosed_of_fits {s : Segment} {rest : List Char} (h : s.Fits rest) (hr : rest ≠ []) :
    s.isClosed := by
  rcases s with c | cs | ⟨cs, closed⟩ | ⟨double, cs, closed⟩
  · rfl
  · rfl
  · cases closed with
    | true => rfl
    | false => exact absurd h.2 hr
  · cases closed with
    | true => rfl
    | false => exact absurd h.2 hr

end Segment

theorem quoteOf_ne_backslash (double : Bool) : quoteOf double ≠ '\\' := by
  cases double <;> decide

theorem quoteOf_injective {a b : Bool} (h : quoteOf a = quoteOf b) : a = b := by
  cases a <;> cases b <;> first | rfl | exact absurd h (by decide)

section Fitting

variable {s t : Segment} {r u : List Char}

/-- Every text that is not empty starts with a segment. -/
theorem exists_segment {cs : List Char} (h : cs ≠ []) :
    ∃ (s : Segment) (rest : List Char), cs = s.text ++ rest ∧ s.Fits rest := by
  obtain ⟨c, r, rfl⟩ := List.exists_cons_of_ne_nil h
  by_cases hq : ∃ double, c = quoteOf double
  · obtain ⟨double, rfl⟩ := hq
    rcases closed_or_cutOff (quoteOf double) r with ⟨body, rest, rfl, hbody⟩ | hcut
    · exact ⟨.literal double body true, rest, by simp [Segment.text], hbody⟩
    · exact ⟨.literal double r false, [], by simp [Segment.text], hcut, rfl⟩
  · by_cases hl : ['/', '/'] <+: c :: r
    · obtain ⟨cs, he⟩ := hl
      obtain ⟨rfl, rfl⟩ := List.cons.inj he
      obtain ⟨body, rest, rfl, hbody, hrest⟩ := exists_line cs
      exact ⟨.lineComment body, rest, by simp [Segment.text], hbody, hrest⟩
    · by_cases hb : ['/', '*'] <+: c :: r
      · obtain ⟨cs, he⟩ := hb
        obtain ⟨rfl, rfl⟩ := List.cons.inj he
        rcases ended_or_open cs with ⟨body, rest, rfl, hbody⟩ | hopen
        · exact ⟨.blockComment body true, rest, by simp [Segment.text], hbody⟩
        · exact ⟨.blockComment cs false, [], by simp [Segment.text], hopen, rfl⟩
      · refine ⟨.code c, r, rfl, ?_, ?_, hl, hb⟩
        · exact fun h => hq ⟨true, h⟩
        · exact fun h => hq ⟨false, h⟩

theorem Segment.eq_code {c : Char} (h : (Segment.code c).Fits r) (he : c :: r = t.text ++ u) :
    t = .code c := by
  obtain ⟨hdouble, hsingle, hline, hblock⟩ := h
  rw [he] at hline hblock
  cases t with
  | code d => rw [(List.cons.inj he).1]
  | lineComment cs => exact absurd (by simp [text]) hline
  | blockComment cs closed => exact absurd (by simp [text]) hblock
  | literal double cs closed =>
    obtain ⟨rfl, -⟩ := List.cons.inj he
    cases double with
    | true => exact absurd rfl hdouble
    | false => exact absurd rfl hsingle

theorem Segment.eq_literal {double : Bool} {cs : List Char} {closed : Bool}
    (h : (Segment.literal double cs closed).Fits r) (h' : t.Fits u)
    (he : (Segment.literal double cs closed).text ++ r = t.text ++ u) :
    t = .literal double cs closed := by
  have hq := quoteOf_ne_backslash double
  rcases t with c | ds | ⟨ds, other⟩ | ⟨double', ds, other⟩
  · exact (eq_code h' he.symm).symm
  · cases double <;> exact absurd (List.cons.inj he).1 (by decide)
  · cases double <;> exact absurd (List.cons.inj he).1 (by decide)
  · obtain ⟨hquote, he⟩ := List.cons.inj he
    obtain rfl := quoteOf_injective hquote
    cases closed with
    | true =>
      cases other with
      | true => rw [Content.unique hq h h' (by simpa [text] using he)]
      | false =>
        obtain ⟨hcut, rfl⟩ := h'
        have he : cs ++ quoteOf double :: r = ds := by simpa [text] using he
        exact absurd (he ▸ hcut) (h.not_cutOff hq)
    | false =>
      obtain ⟨hcut, rfl⟩ := h
      cases other with
      | true =>
        have he : cs = ds ++ quoteOf double :: u := by simpa [text] using he
        exact absurd (he ▸ hcut) (Content.not_cutOff hq h')
      | false =>
        obtain ⟨-, rfl⟩ := h'
        rw [show cs = ds by simpa [text] using he]

theorem Segment.eq_blockComment {cs ds : List Char} {closed other : Bool}
    (h : (Segment.blockComment cs closed).Fits r) (h' : (Segment.blockComment ds other).Fits u)
    (he : (Segment.blockComment cs closed).text ++ r = (Segment.blockComment ds other).text ++ u) :
    Segment.blockComment cs closed = .blockComment ds other := by
  have hended : ∀ {a b t : List Char}, a ++ '*' :: '/' :: t = b → ['*', '/'] <:+: b :=
    fun he => ⟨_, _, by simpa using he⟩
  cases closed with
  | true =>
    cases other with
    | true => rw [eq_of_ended h h' (by simpa [text] using he)]
    | false =>
      obtain ⟨hopen, rfl⟩ := h'
      exact absurd (hended (by simpa [text] using he)) hopen
  | false =>
    obtain ⟨hopen, rfl⟩ := h
    cases other with
    | true => exact absurd (hended (by simpa [text] using he.symm)) hopen
    | false =>
      obtain ⟨-, rfl⟩ := h'
      rw [show cs = ds by simpa [text] using he]

/-- A text starts with only one segment. -/
theorem Segment.unique (h : s.Fits r) (h' : t.Fits u) (he : s.text ++ r = t.text ++ u) :
    t = s := by
  cases s with
  | code c => exact eq_code h he
  | literal double cs closed => exact eq_literal h h' he
  | lineComment cs =>
    cases t with
    | code c => exact (eq_code h' he.symm).symm
    | literal double cs closed => exact (eq_literal h' h he.symm).symm
    | blockComment ds other => simp [text] at he
    | lineComment ds =>
      have hline : cs ++ r = ds ++ u := by simpa [text] using he
      rw [eq_of_line h.1 h'.1 h.2 h'.2 hline]
  | blockComment cs closed =>
    cases t with
    | code c => exact (eq_code h' he.symm).symm
    | literal double cs closed => exact (eq_literal h' h he.symm).symm
    | lineComment ds => simp [text] at he
    | blockComment ds other => exact (eq_blockComment h h' he).symm

end Fitting

/-- A source text in segments. -/
inductive Partition : List Char → List Segment → Prop
  | nil : Partition [] []
  | cons {s : Segment} {rest : List Char} {ss : List Segment} (hs : s.Fits rest)
    (h : Partition rest ss) : Partition (s.text ++ rest) (s :: ss)

namespace Partition

variable {cs : List Char} {s : Segment} {ss ts : List Segment}

theorem nil_right (h : Partition cs []) : cs = [] := by
  cases h
  rfl

theorem nil_left (h : Partition [] ss) : ss = [] := by
  generalize he : [] = cs at h
  cases h with
  | nil => rfl
  | @cons s => exact absurd (List.append_eq_nil_iff.mp he.symm).1 s.text_ne_nil

theorem cons_iff : Partition cs (s :: ss) ↔
    ∃ rest, cs = s.text ++ rest ∧ s.Fits rest ∧ Partition rest ss := by
  constructor
  · intro h
    cases h with
    | cons hs h => exact ⟨_, rfl, hs, h⟩
  · rintro ⟨rest, rfl, hs, h⟩
    exact .cons hs h

/-- A text is its segments. -/
theorem text (h : Partition cs ss) : ss.flatMap Segment.text = cs := by
  induction h with
  | nil => rfl
  | cons _ _ ih => rw [List.flatMap_cons, ih]

theorem unique (h : Partition cs ss) (h' : Partition cs ts) : ts = ss := by
  induction h generalizing ts with
  | nil => exact h'.nil_left
  | @cons s rest ss hs _ ih =>
    cases ts with
    | nil => exact absurd (List.append_eq_nil_iff.mp h'.nil_right).1 s.text_ne_nil
    | cons t ts =>
      obtain ⟨rest', he, ht, h'⟩ := cons_iff.mp h'
      obtain rfl := Segment.unique hs ht he
      obtain rfl := List.append_cancel_left he
      rw [ih h']

/-- Only the last segment may be cut off. -/
theorem isClosed (h : Partition cs (ss ++ ts)) (ht : ts ≠ []) : ∀ s ∈ ss, s.isClosed := by
  induction ss generalizing cs with
  | nil => simp
  | cons s ss ih =>
    obtain ⟨rest, -, hs, h⟩ := cons_iff.mp h
    refine List.forall_mem_cons.mpr ⟨Segment.isClosed_of_fits hs ?_, ih h⟩
    rintro rfl
    exact ht (List.append_eq_nil_iff.mp h.nil_left).2

end Partition

/-- Every text falls into segments. -/
theorem exists_partition (cs : List Char) : ∃ ss, Partition cs ss := by
  induction hn : cs.length using Nat.strongRecOn generalizing cs with
  | ind n ih =>
    by_cases hcs : cs = []
    · exact ⟨[], hcs ▸ .nil⟩
    · obtain ⟨s, rest, rfl, hs⟩ := exists_segment hcs
      have hlt : rest.length < n := by
        have := List.length_pos_of_ne_nil s.text_ne_nil
        rw [← hn, List.length_append]
        omega
      obtain ⟨ss, h⟩ := ih _ hlt rest rfl
      exact ⟨s :: ss, .cons hs h⟩

end ProtoJava.Java
