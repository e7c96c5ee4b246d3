import ProtoJava.Proofs.Decimal.Notation
import ProtoJava.Proofs.Decimal.Overflow
import ProtoJava.Proofs.Mapping.Defaults

/-! # Floating-point literals

Three spellings of a default have constants of a Java class as their literals, and a text that reads
as a finite number of the type is written as a decimal. Every other text that can be read stands for
an infinity or for no number, and its literal is a word that means nothing in Java.
-/

namespace ProtoJava

namespace Decimal

/-- What the default layout writes for infinities and for no number. -/
def bareWords : List String := ["inf", "-inf", "NaN"]

/-- A numeral for a finite number of a format: it is below the limit of the format. -/
def Numeral.InRange (fmt : Format) : Numeral → Prop
  | .finite _ digits exponent => (digits : ℚ) * 10 ^ exponent < fmt.limit
  | .infinite _ => False
  | .nan => False

/-- A numeral is written as a decimal number if it is in range, and else as a bare word. -/
theorem numeral_cases {fmt : Format} (hf : fmt.Reached) (n : Numeral) :
    n.InRange fmt ∧ IsDecimal (defaultLayout.numeral fmt n).toList ∨
      ¬ n.InRange fmt ∧ defaultLayout.numeral fmt n ∈ bareWords := by
  have hinfinite : ∀ negative, String.ofList (signed negative "inf".toList) ∈ bareWords := by decide
  cases n with
  | finite negative digits exponent =>
    rw [Layout.numeral, Numeral.InRange, ← not_le, ← ofDecimal_eq_infinite_iff hf]
    by_cases h : fmt.ofDecimal digits exponent = .infinite
    · right
      rw [h]
      exact ⟨not_not_intro rfl, hinfinite negative⟩
    · left
      rw [String.toList_ofList]
      exact ⟨h, isDecimal_signed negative (isUnsigned_magnitude defaultLayout fmt h)⟩
  | infinite negative => exact Or.inr ⟨id, hinfinite negative⟩
  | nan => exact Or.inr ⟨id, show "NaN" ∈ bareWords by decide⟩

end Decimal

namespace Mapping

open Decimal
open Java (Imports)
open Schema (Graph Message Field FieldType)

/-- A floating-point type of Java: its numbers, its class, and the suffix of its literals. -/
structure JavaFloat where
  format : Format
  className : String
  mark : String

def javaFloat : JavaFloat := ⟨binary32, "Float", "f"⟩

def javaDouble : JavaFloat := ⟨binary64, "Double", "d"⟩

/-- The floating-point type of a field type. -/
def JavaFloat.of? : FieldType → Option JavaFloat
  | .float => some javaFloat
  | .double => some javaDouble
  | _ => none

/-- The spellings with a literal of their own. -/
def specialWords : List String := ["inf", "-inf", "nan"]

namespace JavaFloat

variable {j : JavaFloat}

/-- The expressions of Java for numbers of the type: constants of the class and decimal literals. -/
inductive Legal (j : JavaFloat) : String → Prop
  | positiveInfinity : Legal j (j.className ++ ".POSITIVE_INFINITY")
  | negativeInfinity : Legal j (j.className ++ ".NEGATIVE_INFINITY")
  | nan : Legal j (j.className ++ ".NaN")
  | decimal {d : String} : IsDecimal d.toList → Legal j (d ++ j.mark)

theorem cases_of? {t : FieldType} (h : of? t = some j) : j = javaFloat ∨ j = javaDouble := by
  unfold of? at h
  split at h
  · exact Or.inl (Option.some.inj h).symm
  · exact Or.inr (Option.some.inj h).symm
  · exact absurd h (by simp)

theorem reached {t : FieldType} (h : of? t = some j) : j.format.Reached := by
  rcases cases_of? h with rfl | rfl
  · exact binary32_reached
  · exact binary64_reached

/-- A bare word is no expression of Java. -/
theorem not_legal_bare {t : FieldType} (hj : of? t = some j) :
    ∀ w ∈ bareWords, ¬ j.Legal (w ++ j.mark) := by
  have hconstant : ∀ w ∈ bareWords, ∀ c ∈ [".POSITIVE_INFINITY", ".NEGATIVE_INFINITY", ".NaN"],
      w ++ j.mark ≠ j.className ++ c := by
    rcases cases_of? hj with rfl | rfl <;> decide
  intro w hw h
  generalize heq : w ++ j.mark = literal at h
  cases h with
  | positiveInfinity => exact hconstant w hw _ (by simp) heq
  | negativeInfinity => exact hconstant w hw _ (by simp) heq
  | nan => exact hconstant w hw _ (by simp) heq
  | decimal hd =>
    obtain rfl := (String.append_left_inj j.mark).mp heq
    have hdigits : ∀ w ∈ bareWords, w.toList.all (!·.isDigit) := by decide
    obtain ⟨c, hc, hdigit⟩ := hd.exists_digit
    have hno := List.all_eq_true.mp (hdigits w hw) c hc
    rw [hdigit] at hno
    exact Bool.noConfusion hno

end JavaFloat

section Literals

variable {j : JavaFloat} {type : FieldType} {text : String} {n : Numeral}

/-- The literal for a text. -/
abbrev JavaFloat.literal (j : JavaFloat) (text : String) : String :=
  floatLiteral j.format j.className j.mark text

theorem legal_of_special (h : text ∈ specialWords) : j.Legal (j.literal text) := by
  simp only [specialWords, List.mem_cons, List.not_mem_nil, or_false] at h
  rcases h with rfl | rfl | rfl
  · exact .positiveInfinity
  · exact .negativeInfinity
  · exact .nan

theorem literal_of_read (h : text ∉ specialWords) (hn : Numeral.read? text.toList = some n) :
    j.literal text = defaultLayout.numeral j.format n ++ j.mark := by
  simp only [specialWords, List.mem_cons, List.not_mem_nil, or_false, not_or] at h
  rw [JavaFloat.literal, floatLiteral, if_neg h.1, if_neg h.2.1, if_neg h.2.2, hn]
  rfl

/-- What can be read has a literal of Java just if it is spelled in one of the three ways or is in
range. -/
theorem legal_literal_iff (hj : JavaFloat.of? type = some j)
    (hn : Numeral.read? text.toList = some n) :
    j.Legal (j.literal text) ↔ text ∈ specialWords ∨ n.InRange j.format := by
  by_cases hs : text ∈ specialWords
  · simp only [hs, legal_of_special, true_or]
  rw [literal_of_read hs hn]
  rcases numeral_cases (JavaFloat.reached hj) n with ⟨hrange, hd⟩ | ⟨hrange, hw⟩
  · simp only [hrange, or_true, iff_true]
    exact .decimal hd
  · simp only [hs, hrange, or_false, iff_false]
    exact JavaFloat.not_legal_bare hj _ hw

theorem literal_of_not_legal (hj : JavaFloat.of? type = some j)
    (hn : Numeral.read? text.toList = some n) (h : ¬ j.Legal (j.literal text)) :
    ∃ w ∈ bareWords, j.literal text = w ++ j.mark := by
  rw [legal_literal_iff hj hn, not_or] at h
  rcases numeral_cases (JavaFloat.reached hj) n with ⟨hrange, -⟩ | ⟨-, hw⟩
  · exact absurd hrange h.2
  · exact ⟨_, hw, literal_of_read h.1 hn⟩

end Literals

/-- The default of a floating-point field is written as an expression of Java just if it is spelled
`inf`, `-inf` or `nan` or reads as a finite number of the type; any other default that can be read
is written as a bare word with the suffix of the type. -/
theorem classify_floats {raws : List Descriptor.File} {g : Graph} {ctx : Context}
    {m : Option Message} {x : Field} {j : JavaFloat} {text : String} {n : Numeral}
    (hg : Graph.build raws = .ok g) (hcheck : g.checkReferences g.index = .ok ())
    (hctx : ctx.toScope = scopeOf g) (hx : g.Declares m x) (hrep : x.isRepeated = false)
    (hj : JavaFloat.of? x.type = some j) (hd : x.defaultValue = some text)
    (hn : Numeral.read? text.toList = some n) (i : Imports) :
    ∃ literal, ctx.Renders m x i literal ∧
      (j.Legal literal ↔ text ∈ specialWords ∨ n.InRange j.format) ∧
      (¬ j.Legal literal → ∃ w ∈ bareWords, literal = w ++ j.mark) := by
  have hr := (Graph.checkReferences_iff hg).mp hcheck
  refine ⟨j.literal text, ?_, legal_literal_iff hj hn, literal_of_not_legal hj hn⟩
  have hscalar : ∀ scalar, Scalar.ofType? x.type = some scalar →
      ctx.Renders m x i (scalar.literal text) :=
    fun scalar hs => renders_scalar hg hr hctx hx hrep hd hs i
  unfold JavaFloat.of? at hj
  split at hj
  · next ht =>
    obtain rfl := Option.some.inj hj
    exact hscalar .float (by rw [ht]; rfl)
  · next ht =>
    obtain rfl := Option.some.inj hj
    exact hscalar .double (by rw [ht]; rfl)
  · exact absurd hj (by simp)

/-- A file with a default that is a float, and one that is too large for a float. -/
def probe : Descriptor.File where
  name := "probe.proto"
  package := "probe"
  messages := [{ name := "Probe", fields := [
    { name := "near", number := 1, type := 2, defaultValue := some "2.5" },
    { name := "far", number := 2, type := 2, defaultValue := some "1e+40" }] }]

theorem classify_floats_probe :
    ∃ g m near, Graph.build [probe] = .ok g ∧ m.fields[0]? = some near ∧
      let ctx := Context.prepare ⟨"bean", "conv", .type, false⟩ g [0]
      ∀ i, ∃ literal, ctx.Renders (some m) near i literal ∧ javaFloat.Legal literal := by
  let g := (Graph.build [probe]).toOption.getD default
  let m := g.message ⟨0, 0⟩
  let ctx := Context.prepare ⟨"bean", "conv", .type, false⟩ g [0]
  have hg : Graph.build [probe] = .ok g := rfl
  have hcheck : g.checkReferences g.index = .ok () := by decide +kernel
  have hx : g.Declares (some m) m.fields[0] := Graph.declares_field (List.getElem_mem _)
  have hn : Numeral.read? "2.5".toList = some (.finite false 25 (-1)) := by decide +kernel
  have hrange : Numeral.InRange binary32 (.finite false 25 (-1)) := by
    norm_num [Numeral.InRange, Format.limit, binary32]
  have hctx : ctx.toScope = scopeOf g := rfl
  refine ⟨g, m, m.fields[0], hg, rfl, fun i => ?_⟩
  obtain ⟨literal, hrenders, hlegal, -⟩ := classify_floats hg hcheck hctx hx rfl rfl rfl hn i
  exact ⟨literal, hrenders, hlegal.mpr (Or.inr hrange)⟩

/-- A default that can be read is written as a word that means nothing in Java. -/
theorem classify_floats_bare :
    ∃ g m far, Graph.build [probe] = .ok g ∧ g.checkReferences g.index = .ok () ∧
      g.Declares (some m) far ∧ far.isRepeated = false ∧ far.type = .float ∧
      far.defaultValue = some "1e+40" ∧ (Numeral.read? "1e+40".toList).isSome ∧
      let ctx := Context.prepare ⟨"bean", "conv", .type, false⟩ g [0]
      ∀ i, ctx.Renders (some m) far i "inff" ∧ ¬ javaFloat.Legal "inff" := by
  let g := (Graph.build [probe]).toOption.getD default
  let m := g.message ⟨0, 0⟩
  let ctx := Context.prepare ⟨"bean", "conv", .type, false⟩ g [0]
  have hg : Graph.build [probe] = .ok g := rfl
  have hcheck : g.checkReferences g.index = .ok () := by decide +kernel
  have hx : g.Declares (some m) m.fields[1] := Graph.declares_field (List.getElem_mem _)
  have hr := (Graph.checkReferences_iff hg).mp hcheck
  have hctx : ctx.toScope = scopeOf g := rfl
  have hliteral : Scalar.literal "1e+40" .float = "inff" := by decide +kernel
  refine ⟨g, m, m.fields[1], hg, hcheck, hx, rfl, rfl, rfl, by decide +kernel, fun i => ⟨?_, ?_⟩⟩
  · rw [← hliteral]
    exact renders_scalar hg hr hctx hx rfl rfl rfl i
  · exact JavaFloat.not_legal_bare (t := .float) rfl "inf" (by decide)

end Mapping

end ProtoJava
