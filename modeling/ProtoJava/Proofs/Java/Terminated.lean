import ProtoJava.Proofs.Java.Matching
import ProtoJava.Proofs.Java.Verified

/-! # Terminated literals

In a source file that passes its verification, a literal is closed before the end of its line. A
backslash may take that end, and the text may end first.
-/

namespace ProtoJava.Java

section Plain

variable {cs rest : List Char} {ss : List Segment}

/-- Characters other than quotes and slashes are code. -/
theorem Partition.plain (hcs : ∀ c ∈ cs, c ≠ '"' ∧ c ≠ '\x27' ∧ c ≠ '/') (h : Partition rest ss) :
    Partition (cs ++ rest) (cs.map Segment.code ++ ss) := by
  induction cs with
  | nil => exact h
  | cons c cs ih =>
    rw [List.forall_mem_cons] at hcs
    obtain ⟨⟨hdouble, hsingle, hslash⟩, hcs⟩ := hcs
    have hmark : ∀ d, ¬ ['/', d] <+: c :: (cs ++ rest) := by
      rintro d ⟨t, he⟩
      exact hslash (List.cons.inj he).1.symm
    exact .cons (s := .code c) ⟨hdouble, hsingle, hmark _, hmark _⟩ (ih hcs)

end Plain

/-- A literal of a verified source file is closed before its line ends, except for line ends that a
backslash takes, unless the file ends in it. -/
theorem literal_of_verify {a : Artifact} (h : a.verify = .ok ()) {ss : List Segment}
    (hp : Partition a.content.toList ss) {double closed : Bool} {body : List Char}
    (hs : .literal double body closed ∈ ss) :
    ¬ Breaks (quoteOf double) body ∧
      (closed = true ∨ ss.getLast? = some (.literal double body closed)) := by
  have hbrackets := ((Artifact.verify_eq_ok_iff a).mp h).2.1
  obtain ⟨-, hunbroken, -⟩ := (checkBrackets_eq_ok_iff hp).mp hbrackets
  refine ⟨hunbroken _ hs, ?_⟩
  by_cases hclosed : closed = true
  · exact Or.inl hclosed
  · rw [Bool.not_eq_true] at hclosed
    obtain ⟨before, rfl, -⟩ := hp.eq_concat hs hclosed
    exact Or.inr List.getLast?_concat

/-- A source file with one segment after its header. -/
def lone (s : Segment) : Artifact where
  path := "p/A.java"
  source := "a.proto"
  content := "package p;\n\n// Code generated by protoc-gen-bean. DO NOT EDIT.\n" ++
    String.ofList s.text
  annotations := []

/-- The comment in the header of `lone s`. -/
def loneComment : List Char :=
  " Code generated by protoc-gen-bean. DO NOT EDIT.".toList

/-- The segments of `lone s` before `s`. -/
def loneHead : List Segment :=
  "package p;\n\n".toList.map .code ++ [.lineComment loneComment, .code '\n']

theorem toList_lone (s : Segment) : (lone s).content.toList =
    "package p;\n\n".toList ++
      ((Segment.lineComment loneComment).text ++ ("\n".toList ++ s.text)) := by
  have hhead : "package p;\n\n// Code generated by protoc-gen-bean. DO NOT EDIT.\n".toList =
      "package p;\n\n".toList ++ (Segment.lineComment loneComment).text ++ "\n".toList := by
    decide +kernel
  have htext : (lone s).content.toList =
      "package p;\n\n// Code generated by protoc-gen-bean. DO NOT EDIT.\n".toList ++ s.text :=
    String.toList_append.trans (congrArg (_ ++ ·) String.toList_ofList)
  rw [htext, hhead, List.append_assoc, List.append_assoc]

theorem lone_partition {s : Segment} (hs : s.Fits []) :
    Partition (lone s).content.toList (loneHead ++ [s]) := by
  have hlast : Partition (s.text ++ []) [s] := .cons hs .nil
  rw [List.append_nil] at hlast
  have hline : Partition ("\n".toList ++ s.text) ("\n".toList.map .code ++ [s]) :=
    .plain (by simp) hlast
  have hcomment : Partition ((Segment.lineComment loneComment).text ++ ("\n".toList ++ s.text))
      (.lineComment loneComment :: ("\n".toList.map .code ++ [s])) :=
    .cons ⟨by decide +kernel, fun c hc => (Option.mem_some.mp hc).symm⟩ hline
  rw [toList_lone]
  exact .plain (by simp) hcomment

/-- A literal that goes over the end of a line. -/
def spilled : Segment :=
  .literal true "a\\\nb".toList true

theorem spilled_fits (rest : List Char) : spilled.Fits rest :=
  .char (by decide) (by decide) (.escape '\n' (.char (by decide) (by decide) .nil))

theorem spilled_verify : (lone spilled).verify = .ok () := by
  decide +kernel

theorem literal_of_verify_spilled :
    (lone spilled).verify = .ok () ∧ ¬ Breaks (quoteOf true) "a\\\nb".toList :=
  ⟨spilled_verify, (literal_of_verify spilled_verify (lone_partition (spilled_fits []))
    (List.mem_append_right _ (List.mem_singleton_self _))).1⟩

/-- A verified literal need not be closed on its own line, nor at all. -/
theorem not_forall_literal_closed :
    (¬ ∀ a : Artifact, a.verify = .ok () → ∀ ss, Partition a.content.toList ss →
      ∀ double body closed, .literal double body closed ∈ ss → '\n' ∉ body) ∧
    ¬ ∀ a : Artifact, a.verify = .ok () → ∀ ss, Partition a.content.toList ss →
      ∀ double body closed, .literal double body closed ∈ ss → closed = true := by
  constructor
  · intro h
    have hspilled := h _ spilled_verify _ (lone_partition (spilled_fits [])) _ _ _
      (List.mem_append_right _ (List.mem_singleton_self _))
    exact absurd hspilled (by decide)
  · intro h
    have hfits : (Segment.literal true "abc".toList false).Fits [] :=
      ⟨Or.inl (.char (by decide) (by decide) (.char (by decide) (by decide)
        (.char (by decide) (by decide) .nil))), rfl⟩
    have hopen := h (lone (.literal true "abc".toList false)) (by decide +kernel) _
      (lone_partition hfits) _ _ _ (List.mem_append_right _ (List.mem_singleton_self _))
    exact absurd hopen (by decide)

end ProtoJava.Java
