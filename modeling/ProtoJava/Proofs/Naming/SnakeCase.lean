import ProtoJava.Proofs.Naming.CamelCase
import ProtoJava.Proofs.Text.Pieces

/-! # Snake case

Upper snake case leaves no small letters, so doing it again changes nothing. Words in small letters
lead to one constant, whether they come with underscores, in capitals or in camel case, unless one
of a single letter stands between others: camel case does not tell it from the start of the next.
-/

namespace ProtoJava.Naming

open Text (joined toList_joined_cons)

/-- One or more small letters. -/
def isSmallWord (w : List Char) : Bool :=
  w ≠ [] && w.all Char.isLower

/-- Words with underscores between them. -/
def snakeName (words : List String) : String :=
  joined "_" words

/-- Words in capitals, with underscores between them. -/
def constantName (words : List String) : String :=
  (snakeName words).map Char.toUpper

/-- A capital after such a character starts a word. -/
def yieldsWord (before : Option Char) : Bool :=
  before.any fun c => c.isLower || c.isDigit

section Words

variable {w : List Char} {ws : List (List Char)}

theorem isSmallWord_iff : isSmallWord w ↔ w ≠ [] ∧ ∀ c ∈ w, c.isLower := by
  simp [isSmallWord]

theorem exists_cons_of_isSmallWord (h : isSmallWord w) :
    ∃ c r, w = c :: r ∧ c.isLower ∧ ∀ d ∈ r, d.isLower := by
  cases w with
  | nil => exact absurd h (by decide)
  | cons c r => exact ⟨c, r, rfl, by simpa [isSmallWord] using h⟩

/-- In the middle of a word small letters stay as they are. -/
theorem camelFrom_append (h : ∀ c ∈ w, c.isLower) (rest : List Char) :
    camelFrom true (w ++ rest) = w ++ camelFrom true rest := by
  induction w with
  | nil => rfl
  | cons c w ih =>
    rw [List.forall_mem_cons] at h
    rw [List.cons_append, camelFrom_lower h.1, if_pos rfl, ih h.2, List.cons_append]

theorem camelFrom_word (h : isSmallWord w) (rest : List Char) :
    camelFrom false (w ++ rest) = w.modifyHead Char.toUpper ++ camelFrom true rest := by
  obtain ⟨c, r, rfl, hc, hr⟩ := exists_cons_of_isSmallWord h
  rw [List.cons_append, camelFrom_lower hc, if_neg Bool.false_ne_true, camelFrom_append hr,
    List.modifyHead_cons, List.cons_append]

/-- The word after an underscore gets a capital in its place. -/
theorem camelFrom_words (h : ∀ w ∈ ws, isSmallWord w) :
    camelFrom true (ws.flatMap ('_' :: ·)) = ws.flatMap (·.modifyHead Char.toUpper) := by
  induction ws with
  | nil => rfl
  | cons w ws ih =>
    rw [List.forall_mem_cons] at h
    have hstart : startsLower (w ++ ws.flatMap ('_' :: ·)) := by
      obtain ⟨c, r, rfl, hc, -⟩ := exists_cons_of_isSmallWord h.1
      exact hc
    rw [List.flatMap_cons, List.cons_append, camelFrom_dropped hstart, camelFrom_word h.1, ih h.2,
      List.flatMap_cons]

/-- In camel case every word but the first has a capital. -/
theorem lowerCamelChars_words (hw : isSmallWord w) (hws : ∀ w ∈ ws, isSmallWord w) :
    lowerCamelChars (w ++ ws.flatMap ('_' :: ·)) =
      w ++ ws.flatMap (·.modifyHead Char.toUpper) := by
  have hcamel : camelFrom false (w ++ ws.flatMap ('_' :: ·)) =
      w.modifyHead Char.toUpper ++ ws.flatMap (·.modifyHead Char.toUpper) := by
    rw [camelFrom_word hw, camelFrom_words hws]
  obtain ⟨c, r, rfl, hc, -⟩ := exists_cons_of_isSmallWord hw
  have hne := ne_underscore_of_isAlpha (isAlpha_of_isLower hc)
  rw [lowerCamelChars_eq, List.cons_append, camelChars_of_ne hne, ← List.cons_append, hcamel]
  simp [(toUpper_of_isLower hc).2]

end Words

section Snake

variable {c : Char} {cs r w : List Char} {ws : List (List Char)} {before : Option Char}

theorem snakeFrom_upper (h : c.isUpper) (before : Option Char) (cs : List Char) :
    snakeFrom before (c :: cs) =
      (if yieldsWord before then ['_', c] else [c]) ++ snakeFrom (some c) cs := by
  rw [snakeFrom, toUpper_of_not_isLower (not_isLower_of_isUpper h), h]
  rfl

theorem snakeFrom_append (before : Option Char) (cs ds : List Char) :
    snakeFrom before (cs ++ ds) = snakeFrom before cs ++ snakeFrom (cs.getLast?.or before) ds := by
  induction cs generalizing before with
  | nil => rfl
  | cons c cs ih =>
    have hlast : (c :: cs).getLast?.or before = cs.getLast?.or (some c) := by
      rw [List.getLast?_cons]
      cases cs.getLast? <;> rfl
    rw [List.cons_append, snakeFrom, snakeFrom, ih, hlast, List.append_assoc]

/-- Without capitals there is no underscore to be put in. -/
theorem snakeFrom_of_not_isUpper (h : ∀ c ∈ cs, ¬ c.isUpper) (before : Option Char) :
    snakeFrom before cs = cs.map Char.toUpper := by
  induction cs generalizing before with
  | nil => rfl
  | cons c cs ih =>
    rw [List.forall_mem_cons] at h
    simp [snakeFrom, h.1, ih h.2]

theorem not_isLower_snakeFrom (before : Option Char) : ∀ c ∈ snakeFrom before cs, ¬ c.isLower := by
  induction cs generalizing before with
  | nil => simp [snakeFrom]
  | cons c cs ih =>
    rw [snakeFrom, List.forall_mem_append]
    refine ⟨?_, ih _⟩
    split
    · next h =>
      have hu : c.isUpper := (Bool.and_eq_true _ _ ▸ h).1
      simpa using not_isLower_of_isUpper hu
    · exact List.forall_mem_singleton.mpr (not_isLower_toUpper c)

theorem upperSnakeChars_eq_self (h : ∀ c ∈ cs, ¬ c.isLower) : upperSnakeChars cs = cs :=
  if_neg (by simpa using h)

theorem not_isLower_upperSnakeChars (cs : List Char) : ∀ c ∈ upperSnakeChars cs, ¬ c.isLower := by
  unfold upperSnakeChars
  split
  · exact not_isLower_snakeFrom none
  · next h => simpa using h

theorem upperSnakeChars_of_not_isUpper (h : ∀ c ∈ cs, ¬ c.isUpper) :
    upperSnakeChars cs = cs.map Char.toUpper := by
  unfold upperSnakeChars
  split
  · exact snakeFrom_of_not_isUpper h none
  · next hl =>
    have hsmall : ∀ c ∈ cs, ¬ c.isLower := by simpa using hl
    rw [List.map_congr_left fun c hc => toUpper_of_not_isLower (hsmall c hc), List.map_id']

/-- Small letters let a capital after them start a word, but there have to be some. -/
theorem yieldsWord_getLast? (hr : ∀ c ∈ r, c.isLower) (hb : ¬ yieldsWord before) :
    yieldsWord (r.getLast?.or before) ↔ r ≠ [] := by
  cases h : r.getLast? with
  | none =>
    obtain rfl := List.getLast?_eq_none_iff.mp h
    simpa using hb
  | some c =>
    have hmem := List.mem_of_getLast? h
    simp [yieldsWord, hr c hmem, List.ne_nil_of_mem hmem]

/-- A word with a capital gets an underscore in front just if what stands before it yields. It
yields to the next word in turn just if its capital is not all there is. -/
theorem exists_snakeFrom_word (h : isSmallWord w) (before : Option Char) (rest : List Char) :
    ∃ last, snakeFrom before (w.modifyHead Char.toUpper ++ rest) =
        (if yieldsWord before then ['_'] else []) ++ w.map Char.toUpper ++ snakeFrom last rest ∧
      (yieldsWord last ↔ 2 ≤ w.length) := by
  obtain ⟨c, r, rfl, hc, hr⟩ := exists_cons_of_isSmallWord h
  have hu : c.toUpper.isUpper := (toUpper_of_isLower hc).1
  have hcapital : ¬ yieldsWord (some c.toUpper) := by
    have hdigit : ¬ c.toUpper.isDigit := fun hd =>
      not_endsWord_of_isAlpha (isAlpha_of_isUpper hu) (Or.inl hd)
    exact fun h => ((Bool.or_eq_true _ _).mp h).elim (not_isLower_toUpper c) hdigit
  refine ⟨r.getLast?.or (some c.toUpper), ?_, ?_⟩
  · rw [List.modifyHead_cons, List.cons_append, snakeFrom_upper hu, snakeFrom_append,
      snakeFrom_of_not_isUpper fun d hd => not_isUpper_of_isLower (hr d hd)]
    split <;> simp
  · rw [yieldsWord_getLast? hr hcapital, List.length_cons, Nat.succ_le_succ_iff, Nat.succ_le_iff,
      List.length_pos_iff]

/-- With a capital each, words get their underscores back just if what stands before them yields
and none but the last is a single letter. -/
theorem snakeFrom_words_iff (h : ∀ w ∈ ws, isSmallWord w) (before : Option Char) :
    snakeFrom before (ws.flatMap (·.modifyHead Char.toUpper)) =
        ws.flatMap (fun w => '_' :: w.map Char.toUpper) ↔
      (ws ≠ [] → yieldsWord before) ∧ ∀ w ∈ ws.dropLast, 2 ≤ w.length := by
  induction ws generalizing before with
  | nil => simp [snakeFrom]
  | cons w ws ih =>
    rw [List.forall_mem_cons] at h
    obtain ⟨last, hscan, hlast⟩ :=
      exists_snakeFrom_word h.1 before (ws.flatMap (·.modifyHead Char.toUpper))
    rw [List.flatMap_cons, List.flatMap_cons, hscan]
    by_cases hb : yieldsWord before
    · simp only [hb, if_true, List.cons_append, List.nil_append, List.cons.injEq, true_and,
        List.append_cancel_left_eq, ih h.2, hlast]
      cases ws with
      | nil => simp
      | cons v ws =>
        rw [List.dropLast_cons_cons, List.forall_mem_cons]
        simp
    · -- One side starts with the capital, the other one with an underscore.
      obtain ⟨c, r, rfl, hc, -⟩ := exists_cons_of_isSmallWord h.1
      have hne := ne_underscore_of_isAlpha (isAlpha_toUpper (isAlpha_of_isLower hc))
      simp [hb, hne]

/-- Camel case of words leads to their constant just if all but the first and the last of them have
two letters or more. -/
theorem upperSnakeChars_words_iff (hw : isSmallWord w) (hws : ∀ w ∈ ws, isSmallWord w) :
    upperSnakeChars (w ++ ws.flatMap (·.modifyHead Char.toUpper)) =
        (w ++ ws.flatMap ('_' :: ·)).map Char.toUpper ↔
      ∀ w ∈ ws.dropLast, 2 ≤ w.length := by
  obtain ⟨hne, hlower⟩ := isSmallWord_iff.mp hw
  have hany : (w ++ ws.flatMap (·.modifyHead Char.toUpper)).any Char.isLower :=
    List.any_eq_true.mpr ⟨w.head hne, List.mem_append_left _ (List.head_mem hne),
      hlower _ (List.head_mem hne)⟩
  have hmap : (ws.flatMap ('_' :: ·)).map Char.toUpper =
      ws.flatMap fun w => '_' :: w.map Char.toUpper := List.map_flatMap
  have hnone : ¬ yieldsWord none := Bool.false_ne_true
  have hyields := (yieldsWord_getLast? hlower hnone).mpr hne
  rw [upperSnakeChars, if_pos hany, snakeFrom_append,
    snakeFrom_of_not_isUpper fun c hc => not_isUpper_of_isLower (hlower c hc),
    List.map_append, hmap, List.append_cancel_left_eq, snakeFrom_words_iff hws]
  exact and_iff_right fun _ => hyields

end Snake

section Constants

variable {words : List String} {s : String} {ss : List String}

theorem not_isLower_upperSnake (s : String) : ∀ c ∈ (upperSnake s).toList, ¬ c.isLower := by
  rw [upperSnake, String.toList_ofList]
  exact not_isLower_upperSnakeChars s.toList

theorem upperSnake_eq_self (h : ∀ c ∈ s.toList, ¬ c.isLower) : upperSnake s = s := by
  rw [upperSnake, upperSnakeChars_eq_self h, String.ofList_toList]

theorem toList_snakeName_cons (s : String) (ss : List String) :
    (snakeName (s :: ss)).toList = s.toList ++ (ss.map String.toList).flatMap ('_' :: ·) := by
  rw [snakeName, toList_joined_cons, List.flatMap_map]
  rfl

theorem toList_constantName (words : List String) :
    (constantName words).toList = (snakeName words).toList.map Char.toUpper :=
  String.toList_map

theorem upperSnake_constantName (words : List String) :
    upperSnake (constantName words) = constantName words := by
  refine upperSnake_eq_self ?_
  rw [toList_constantName]
  exact List.forall_mem_map.mpr fun c _ => not_isLower_toUpper c

theorem upperSnake_snakeName (h : ∀ w ∈ words, isSmallWord w.toList) :
    upperSnake (snakeName words) = constantName words := by
  have hupper : ∀ c ∈ (snakeName words).toList, ¬ c.isUpper := by
    have hword : ∀ w ∈ words, ∀ c ∈ w.toList, ¬ c.isUpper := fun w hw c hc =>
      not_isUpper_of_isLower ((isSmallWord_iff.mp (h w hw)).2 c hc)
    cases words with
    | nil => simp [snakeName, joined]
    | cons s ss =>
      rw [List.forall_mem_cons] at hword
      rw [toList_snakeName_cons, List.forall_mem_append]
      refine ⟨hword.1, fun c hc => ?_⟩
      obtain ⟨_, hv, hc⟩ := List.mem_flatMap.mp hc
      obtain ⟨w, hw, rfl⟩ := List.mem_map.mp hv
      rcases List.mem_cons.mp hc with rfl | hc
      · decide
      · exact hword.2 w hw c hc
  rw [← String.toList_inj, upperSnake, String.toList_ofList, toList_constantName,
    upperSnakeChars_of_not_isUpper hupper]

theorem upperSnake_lowerCamel_iff (hs : isSmallWord s.toList)
    (hss : ∀ w ∈ ss, isSmallWord w.toList) :
    upperSnake (lowerCamel (snakeName (s :: ss))) = constantName (s :: ss) ↔
      ∀ w ∈ ss.dropLast, 2 ≤ w.length := by
  have hwords : ∀ w ∈ ss.map String.toList, isSmallWord w := List.forall_mem_map.mpr hss
  rw [← String.toList_inj, upperSnake, lowerCamel, String.toList_ofList, String.toList_ofList,
    toList_constantName, toList_snakeName_cons, lowerCamelChars_words hs hwords,
    upperSnakeChars_words_iff hs hwords, ← List.map_dropLast, List.forall_mem_map]
  simp only [String.length_toList]

/-- Words in small letters lead to one constant from their snake case and from that constant, and
from their camel case just if every word but the first and the last has two letters or more. No
constant has a small letter, so a second time makes no difference. -/
theorem constants_agree :
    (∀ words : List String, words ≠ [] → (∀ w ∈ words, isSmallWord w.toList) →
      upperSnake (snakeName words) = constantName words ∧
      upperSnake (constantName words) = constantName words ∧
      (upperSnake (lowerCamel (snakeName words)) = constantName words ↔
        ∀ w ∈ words.tail.dropLast, 2 ≤ w.length)) ∧
    ∀ s, (∀ c ∈ (upperSnake s).toList, ¬ c.isLower) ∧ upperSnake (upperSnake s) = upperSnake s := by
  constructor
  · intro words hne h
    refine ⟨upperSnake_snakeName h, upperSnake_constantName words, ?_⟩
    obtain ⟨s, ss, rfl⟩ := List.exists_cons_of_ne_nil hne
    rw [List.forall_mem_cons] at h
    exact upperSnake_lowerCamel_iff h.1 h.2
  · intro s
    exact ⟨not_isLower_upperSnake s, upperSnake_eq_self (not_isLower_upperSnake s)⟩

/-- Single letters are kept apart at both ends, but not in the middle. -/
theorem constants_agree_letters :
    (∀ w ∈ ["a", "to", "z"], isSmallWord w.toList) ∧
    lowerCamel (snakeName ["a", "to", "z"]) = "aToZ" ∧
    upperSnake (lowerCamel (snakeName ["a", "to", "z"])) = constantName ["a", "to", "z"] ∧
    (∀ w ∈ ["x", "y", "z"], isSmallWord w.toList) ∧
    lowerCamel (snakeName ["x", "y", "z"]) = "xYZ" ∧
    upperSnake (lowerCamel (snakeName ["x", "y", "z"])) ≠ constantName ["x", "y", "z"] := by
  have hkept : ∀ w ∈ ["a", "to", "z"], isSmallWord w.toList := by decide
  have hlost : ∀ w ∈ ["x", "y", "z"], isSmallWord w.toList := by decide
  obtain ⟨hwords, -⟩ := constants_agree
  obtain ⟨-, -, hsame⟩ := hwords ["a", "to", "z"] (List.cons_ne_nil _ _) hkept
  obtain ⟨-, -, hother⟩ := hwords ["x", "y", "z"] (List.cons_ne_nil _ _) hlost
  refine ⟨hkept, by decide, hsame.mpr (by decide), hlost, by decide, fun h => ?_⟩
  exact absurd (hother.mp h) (by decide)

end Constants

end ProtoJava.Naming
