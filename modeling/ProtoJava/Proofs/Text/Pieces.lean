import Mathlib.Data.List.Basic
import ProtoJava.Text.Pieces

/-! # Pieces of joined texts

Cutting a text undoes joining pieces that do not hold the separator, and a text that starts with a
line has it as its first line.
-/

namespace ProtoJava.Text

variable {sep c : Char} {cs ds : List Char}

theorem consPiece_append (sep c : Char) {ps : List (List Char)} (h : ps ≠ [])
    (qs : List (List Char)) : consPiece sep c (ps ++ qs) = consPiece sep c ps ++ qs := by
  obtain ⟨p, ps, rfl⟩ := List.exists_cons_of_ne_nil h
  simp only [List.cons_append, consPiece]
  split <;> rfl

/-- The pieces on both sides of a separator. -/
theorem pieces_append (sep : Char) (cs ds : List Char) :
    pieces sep (cs ++ sep :: ds) = pieces sep cs ++ pieces sep ds := by
  induction cs with
  | nil =>
    obtain ⟨p, ps, hp⟩ := List.exists_cons_of_ne_nil (pieces_ne_nil sep ds)
    rw [List.nil_append, pieces_cons, hp, consPiece, if_pos rfl]
    rfl
  | cons c cs ih =>
    rw [List.cons_append, pieces_cons, ih, consPiece_append _ _ (pieces_ne_nil sep cs), pieces_cons]

theorem pieces_of_not_mem (h : sep ∉ cs) : pieces sep cs = [cs] := by
  induction cs with
  | nil => rfl
  | cons c cs ih =>
    rw [List.mem_cons, not_or] at h
    rw [pieces_cons, ih h.2, consPiece, if_neg (Ne.symm h.1)]

/-- Text without a separator goes on with the last piece. -/
theorem pieces_append_of_not_mem (h : sep ∉ ds) (cs : List Char) :
    ∃ ps p, pieces sep cs = ps ++ [p] ∧ pieces sep (cs ++ ds) = ps ++ [p ++ ds] := by
  induction cs with
  | nil => exact ⟨[], [], rfl, pieces_of_not_mem h⟩
  | cons c cs ih =>
    obtain ⟨ps, p, hcs, hall⟩ := ih
    rw [List.cons_append, pieces_cons, pieces_cons, hcs, hall]
    cases ps with
    | nil =>
      simp only [List.nil_append, consPiece]
      split
      · exact ⟨[[]], p, rfl, rfl⟩
      · exact ⟨[], c :: p, rfl, rfl⟩
    | cons q ps =>
      rw [consPiece_append _ _ (List.cons_ne_nil _ _), consPiece_append _ _ (List.cons_ne_nil _ _)]
      exact ⟨_, p, rfl, rfl⟩

/-- Text without a separator goes before the first piece. -/
theorem tail_pieces_append (h : sep ∉ cs) (ds : List Char) :
    (pieces sep (cs ++ ds)).tail = (pieces sep ds).tail := by
  induction cs with
  | nil => rfl
  | cons c cs ih =>
    rw [List.mem_cons, not_or] at h
    obtain ⟨p, ps, hp⟩ := List.exists_cons_of_ne_nil (pieces_ne_nil sep (cs ++ ds))
    rw [List.cons_append, pieces_cons, ← ih h.2, hp, consPiece, if_neg (Ne.symm h.1)]
    rfl

/-- A character is the separator or stands in a piece. -/
theorem mem_pieces_of_mem (sep : Char) (h : c ∈ cs) : c = sep ∨ ∃ p ∈ pieces sep cs, c ∈ p := by
  induction cs with
  | nil => exact absurd h List.not_mem_nil
  | cons d cs ih =>
    obtain ⟨p, ps, hp⟩ := List.exists_cons_of_ne_nil (pieces_ne_nil sep cs)
    rw [hp] at ih
    rw [pieces_cons, hp, consPiece]
    split
    · next hd =>
      rcases List.mem_cons.mp h with rfl | h
      · exact Or.inl hd
      · refine (ih h).imp_right ?_
        rintro ⟨q, hq, hc⟩
        exact ⟨q, List.mem_cons_of_mem _ hq, hc⟩
    · rcases List.mem_cons.mp h with rfl | h
      · exact Or.inr ⟨c :: p, List.mem_cons_self, List.mem_cons_self⟩
      · rcases ih h with h | ⟨q, hq, hc⟩
        · exact Or.inl h
        · rcases List.mem_cons.mp hq with rfl | hq
          · exact Or.inr ⟨d :: q, List.mem_cons_self, List.mem_cons_of_mem _ hc⟩
          · exact Or.inr ⟨q, List.mem_cons_of_mem _ hq, hc⟩

theorem mem_of_mem_pieces {p : List Char} (hp : p ∈ pieces sep cs) (hc : c ∈ p) : c ∈ cs := by
  induction cs generalizing p with
  | nil =>
    obtain rfl := List.mem_singleton.mp hp
    exact hc
  | cons d cs ih =>
    obtain ⟨q, qs, hq⟩ := List.exists_cons_of_ne_nil (pieces_ne_nil sep cs)
    rw [hq] at ih
    rw [pieces_cons, hq, consPiece] at hp
    split at hp
    · rcases List.mem_cons.mp hp with rfl | hp
      · exact absurd hc List.not_mem_nil
      · exact List.mem_cons_of_mem d (ih hp hc)
    · rcases List.mem_cons.mp hp with rfl | hp
      · rcases List.mem_cons.mp hc with rfl | hc
        · exact List.mem_cons_self
        · exact List.mem_cons_of_mem d (ih List.mem_cons_self hc)
      · exact List.mem_cons_of_mem d (ih (List.mem_cons_of_mem q hp) hc)

/-- The last separator cuts a text at one place. -/
theorem append_sep_injective {as bs : List Char} (hc : sep ∉ cs) (hd : sep ∉ ds)
    (h : as ++ sep :: cs = bs ++ sep :: ds) : as = bs ∧ cs = ds := by
  rcases List.append_eq_append_iff.mp h with ⟨s, rfl, hs⟩ | ⟨s, rfl, hs⟩ <;> cases s with
  | nil => simp_all
  | cons c s => simp_all

/-- Cutting gives back the pieces that were joined. -/
theorem pieces_joined {ss : List String} (hne : ss ≠ []) (h : ∀ s ∈ ss, sep ∉ s.toList) :
    pieces sep (joined (String.singleton sep) ss).toList = ss.map String.toList := by
  induction ss with
  | nil => exact absurd rfl hne
  | cons s ss ih =>
    rw [List.forall_mem_cons] at h
    cases ss with
    | nil => exact pieces_of_not_mem h.1
    | cons t ss =>
      rw [joined, String.toList_append, String.toList_append, String.toList_singleton,
        List.append_assoc, List.singleton_append, pieces_append, pieces_of_not_mem h.1,
        ih (List.cons_ne_nil t ss) h.2]
      rfl

/-- Pieces without the separator are read off the text that joins them. -/
theorem joined_inj {ss ts : List String} (hs : ss ≠ []) (ht : ts ≠ [])
    (hss : ∀ s ∈ ss, sep ∉ s.toList) (hts : ∀ t ∈ ts, sep ∉ t.toList)
    (h : joined (String.singleton sep) ss = joined (String.singleton sep) ts) : ss = ts := by
  have hpieces := pieces_joined hs hss
  rw [h, pieces_joined ht hts] at hpieces
  exact List.map_injective_iff.mpr (fun _ _ => String.toList_injective) hpieces.symm

theorem joined_append_cons (sep a s : String) (ss : List String) :
    joined sep ((a ++ s) :: ss) = a ++ joined sep (s :: ss) := by
  cases ss <;> simp [joined, String.append_assoc]

/-- Every piece but the first comes after a separator. -/
theorem toList_joined_cons (sep s : String) (ss : List String) :
    (joined sep (s :: ss)).toList =
      s.toList ++ ss.flatMap fun t => sep.toList ++ t.toList := by
  induction ss generalizing s with
  | nil => simp [joined]
  | cons t ss ih =>
    rw [joined, String.toList_append, String.toList_append, ih, List.flatMap_cons]
    simp only [List.append_assoc]

/-- Joining gives back the text that was cut. -/
theorem joined_pieces (sep : Char) (cs : List Char) :
    joined (String.singleton sep) ((pieces sep cs).map String.ofList) = String.ofList cs := by
  induction cs with
  | nil => rfl
  | cons c cs ih =>
    obtain ⟨p, ps, hp⟩ := List.exists_cons_of_ne_nil (pieces_ne_nil sep cs)
    rw [hp, List.map_cons] at ih
    have hcons : ∀ ds, String.ofList (c :: ds) = String.singleton c ++ String.ofList ds := by
      intro ds
      rw [← List.singleton_append, String.ofList_append]
      rfl
    rw [pieces_cons, hp, consPiece, hcons, ← ih]
    split
    · next hc =>
      rw [List.map_cons, List.map_cons, joined, hc]
      exact congrArg (· ++ _) (String.empty_append)
    · rw [List.map_cons, hcons, joined_append_cons]

/-- What stands after each separator can be taken for the start of the next piece. -/
theorem joined_padded (sep pad s : String) (ss : List String) :
    joined (sep ++ pad) (s :: ss) = joined sep (s :: ss.map (pad ++ ·)) := by
  induction ss generalizing s with
  | nil => rfl
  | cons t ss ih =>
    rw [joined, ih, List.map_cons, joined, joined_append_cons]
    simp only [String.append_assoc]

theorem joined_padded_inj {pad : String} (hpad : sep ∉ pad.toList) {ss ts : List String}
    (hs : ∀ s ∈ ss, s ≠ "" ∧ sep ∉ s.toList) (ht : ∀ t ∈ ts, t ≠ "" ∧ sep ∉ t.toList)
    (h : joined (String.singleton sep ++ pad) ss = joined (String.singleton sep ++ pad) ts) :
    ss = ts := by
  have hne : ∀ {s : String} {ss : List String}, s ≠ "" → ∀ sep, joined sep (s :: ss) ≠ "" := by
    intro s ss hs sep
    cases ss <;> simp [joined, hs]
  have hfree : ∀ {s : String} {ss : List String}, (∀ x ∈ s :: ss, x ≠ "" ∧ sep ∉ x.toList) →
      ∀ x ∈ s :: ss.map (pad ++ ·), sep ∉ x.toList := by
    intro s ss h x hx
    rcases List.mem_cons.mp hx with rfl | hx
    · exact (h _ List.mem_cons_self).2
    · obtain ⟨y, hy, rfl⟩ := List.mem_map.mp hx
      rw [String.toList_append, List.mem_append, not_or]
      exact ⟨hpad, (h y (List.mem_cons_of_mem _ hy)).2⟩
  cases ss with
  | nil =>
    cases ts with
    | nil => rfl
    | cons t ts => exact absurd h.symm (hne (ht t List.mem_cons_self).1 _)
  | cons s ss =>
    cases ts with
    | nil => exact absurd h (hne (hs s List.mem_cons_self).1 _)
    | cons t ts =>
      rw [joined_padded, joined_padded] at h
      have hall := joined_inj (List.cons_ne_nil _ _) (List.cons_ne_nil _ _) (hfree hs) (hfree ht) h
      obtain ⟨rfl, hrest⟩ := List.cons.inj hall
      have hinj : Function.Injective (pad ++ ·) := fun _ _ => (String.append_right_inj pad).mp
      rw [List.map_injective_iff.mpr hinj hrest]

/-- The pieces of a text are those of the standard library. -/
theorem pieces_eq_splitOn (sep : Char) (cs : List Char) : pieces sep cs = cs.splitOn sep := by
  induction cs with
  | nil => rw [pieces_nil, List.splitOn_nil]
  | cons c cs ih =>
    rw [pieces_cons, ih, List.splitOn_cons_eq_if_modifyHead]
    cases hs : cs.splitOn sep with
    | nil => exact absurd hs (List.splitOn_ne_nil sep cs)
    | cons p ps => simp [consPiece]

/-- A text is cut at its first separator. -/
theorem cut?_append (h : sep ∉ cs) (ds : List Char) :
    cut? sep (cs ++ sep :: ds) = some (cs, ds) := by
  induction cs with
  | nil => exact if_pos rfl
  | cons c cs ih =>
    rw [List.mem_cons, not_or] at h
    rw [List.cons_append, cut?, if_neg (Ne.symm h.1), ih h.2]
    rfl

theorem cut?_of_not_mem (h : sep ∉ cs) : cut? sep cs = none := by
  induction cs with
  | nil => rfl
  | cons c cs ih =>
    rw [List.mem_cons, not_or] at h
    rw [cut?, if_neg (Ne.symm h.1), ih h.2]
    rfl

theorem dropLead?_append (lead cs : List Char) : dropLead? lead (lead ++ cs) = some cs := by
  simp [dropLead?]

theorem dropSuffix?_append (cs suffix : List Char) :
    dropSuffix? suffix (cs ++ suffix) = some cs := by
  simp [dropSuffix?]

/-- A text without a character at its end, if it stands there. -/
theorem getD_dropSuffix? (c : Char) (cs : List Char) :
    (dropSuffix? [c] cs).getD cs = if cs.getLast? = some c then cs.dropLast else cs := by
  split
  · next h =>
    obtain ⟨body, rfl⟩ := List.getLast?_eq_some_iff.mp h
    rw [dropSuffix?_append, List.dropLast_concat]
    rfl
  · next h =>
    rw [dropSuffix?, if_neg]
    · rfl
    · rw [List.isSuffixOf_iff_suffix]
      rintro ⟨body, rfl⟩
      exact h List.getLast?_concat

/-- A line before others is read as it is, unless a carriage return ends it. -/
theorem lines_append (hn : '\n' ∉ cs) (hr : ¬ ['\r'] <:+ cs) (ds : List Char) :
    lines (cs ++ '\n' :: ds) = cs :: lines ds := by
  obtain ⟨p, ps, hp⟩ := List.exists_cons_of_ne_nil (pieces_ne_nil '\n' ds)
  have hstrip : (dropSuffix? ['\r'] cs).getD cs = cs := by
    rw [dropSuffix?, if_neg (by simpa using hr), Option.getD_none]
  simp only [lines, pieces_append, pieces_of_not_mem hn, List.singleton_append, hp,
    List.dropLast_cons_cons, List.map_cons, hstrip, List.getLastD_cons]
  split <;> rfl

end ProtoJava.Text
