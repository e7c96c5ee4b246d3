import Mathlib.Data.Int.ModEq
import ProtoJava.Proofs.Mapping.Faults
import ProtoJava.Proofs.Mapping.Referring
import ProtoJava.Proofs.Mapping.Shapes
import ProtoJava.Proofs.Text.Decimals
import ProtoJava.Proofs.Text.Pieces

/-! # Values of defaults

Java has no unsigned integers, writes bytes with a sign and finds the values of an enum by number.
The literals of defaults keep their values all the same: each is in the range of its Java type and
stands for the bits, bytes or number that the default gives.
-/

namespace ProtoJava

namespace Word

/-- A signed integer of `bits` bits has the bits of an unsigned one. -/
structure Stands (bits : Nat) (s : Int) (n : Nat) : Prop where
  low : -2 ^ (bits - 1) ≤ s
  high : s < 2 ^ (bits - 1)
  modEq : s ≡ n [ZMOD 2 ^ bits]

variable {bits n n' : Nat} {s : Int}

theorem signed_stands (k n : Nat) : Stands (k + 1) (signed (k + 1) n) n := by
  have hcount : (count (k + 1) : Int) = 2 * 2 ^ k := by
    rw [count, Nat.pow_eq, Nat.cast_pow, pow_succ']
    rfl
  have hpos : 0 < count (k + 1) := Nat.pow_pos (by decide)
  have hlow := Int.le_bmod (x := n) hpos
  have hhigh := Int.bmod_lt (x := n) hpos
  rw [hcount] at hlow hhigh
  constructor
  case low =>
    change -2 ^ k ≤ signed (k + 1) n
    unfold signed
    omega
  case high =>
    change signed (k + 1) n < 2 ^ k
    unfold signed
    omega
  case modEq =>
    have hmod : signed (k + 1) n % count (k + 1) = n % count (k + 1) := Int.bmod_emod
    rw [hcount, ← pow_succ'] at hmod
    exact hmod

/-- Different unsigned integers have different bits. -/
theorem Stands.unique (h : Stands bits s n) (h' : Stands bits s n') (hn : n < 2 ^ bits)
    (hn' : n' < 2 ^ bits) : n = n' := by
  have hmod : (n : Int) % 2 ^ bits = n' % 2 ^ bits := h.modEq.symm.trans h'.modEq
  have hnat : n % 2 ^ bits = n' % 2 ^ bits := by exact_mod_cast hmod
  rwa [Nat.mod_eq_of_lt hn, Nat.mod_eq_of_lt hn'] at hnat

end Word

namespace Decimal

/-- A text is a number in decimal notation; zeros may stand before it. -/
structure Denotes (text : String) (n : Nat) : Prop where
  ne_nil : text.toList ≠ []
  digits : ∀ c ∈ text.toList, c.isDigit
  value : digitsValue text.toList = n

variable {text : String} {n bound : Nat}

theorem digitsValue_eq (cs : List Char) : digitsValue cs = Nat.ofDigitChars 10 cs 0 := by
  unfold digitsValue Nat.ofDigitChars
  congr
  funext k c
  rw [Nat.mul_comm]
  rfl

theorem denotes_toString (n : Nat) : Denotes (toString n) n where
  ne_nil := Text.toList_nat n ▸ Nat.toDigits_ne_nil
  digits _ := Text.isDigit_of_mem_nat
  value := by rw [digitsValue_eq, Text.toList_nat, Nat.ofDigitChars_ten_toDigits]

theorem Denotes.readNat? (h : Denotes text n) (hn : n < bound) :
    readNat? bound text.toList = some n := by
  have hall : text.toList.all Char.isDigit := List.all_eq_true.mpr h.digits
  have hvalue := h.value
  have hne := h.ne_nil
  unfold Decimal.readNat?
  split
  · next r hr =>
    have hplus := h.digits '+' (hr ▸ List.mem_cons_self)
    exact absurd hplus (by decide)
  · simp [hall, hvalue, hne, hn]

end Decimal

namespace Mapping

open Decimal (Denotes)
open Java (Imports)
open Schema (Graph Message Field TypeRef)

/-- What a default says, where Java says it in another way. -/
inductive Meaning
  | word32 (n : Nat)
  | word64 (n : Nat)
  | bytes (bs : List UInt8)
  | enum (number : Int)

/-- The meaning of the default of a field. An enum is that of the first value with the name. -/
inductive Means (g : Graph) (x : Field) : Meaning → Prop
  | word32 {text : String} {n : Nat} : x.type = .uint32 ∨ x.type = .fixed32 →
      x.defaultValue = some text → n < 2 ^ 32 → Denotes text n → Means g x (.word32 n)
  | word64 {text : String} {n : Nat} : x.type = .uint64 ∨ x.type = .fixed64 →
      x.defaultValue = some text → n < 2 ^ 64 → Denotes text n → Means g x (.word64 n)
  | bytes {text : String} : x.type = .bytes → x.defaultValue = some text →
      Means g x (.bytes (Text.unescape text.toList))
  | enum {text : String} {id : Schema.EnumId} {before after : List Schema.EnumValue}
      {v : Schema.EnumValue} : x.type = .enum → x.defaultValue = some text →
      g.FindsEnum x.typeName id → (g.enumType id).values = before ++ v :: after →
      v.name = text → (∀ u ∈ before, u.name ≠ text) → Means g x (.enum v.number)

/-- A text is a literal for what the default of `x` says. -/
inductive Writes (ctx : Context) (x : Field) (i : Imports) : Meaning → String → Prop
  | word32 {n : Nat} {s : Int} : Word.Stands 32 s n → Writes ctx x i (.word32 n) (toString s)
  | word64 {n : Nat} {s : Int} : Word.Stands 64 s n →
      Writes ctx x i (.word64 n) (toString s ++ "L")
  | bytes {bs : List UInt8} {ss : List Int} :
      List.Forall₂ (fun b s => Word.Stands 8 s b.toNat) bs ss →
      Writes ctx x i (.bytes bs)
        ("new byte[] \x7b" ++ Text.joined ", " (ss.map toString) ++ "\x7d")
  | enum {id : Schema.EnumId} {number : Int} : ctx.graph.FindsEnum x.typeName id →
      Writes ctx x i (.enum number)
        (((ctx.referEnum id).run i).1 ++ ".forNumber(" ++ toString number ++ ")")

/-- What a field becomes has this constant for its default, when the classes of `i` are imported. -/
def Context.Renders (ctx : Context) (m : Option Message) (x : Field) (i : Imports)
    (literal : String) : Prop :=
  ∃ p, ctx.classify m x = .ok p ∧ ((p.defaultValue ctx).run i).1 = some literal

section Literals

variable {x : Field} {ctx : Context} {i i' : Imports} {literal : String}

theorem unsignedLiteral_stands {k n : Nat} {text : String} (hn : n < 2 ^ (k + 1))
    (h : Denotes text n) :
    ∃ s, Word.Stands (k + 1) s n ∧ unsignedLiteral (k + 1) text = toString s := by
  have hread : Decimal.readNat? (Word.count (k + 1)) text.toList = some n := h.readNat? hn
  exact ⟨_, Word.signed_stands k n, by rw [unsignedLiteral, hread]⟩

theorem bytesLiteral_stands (text : String) : ∃ ss : List Int,
    List.Forall₂ (fun b s => Word.Stands 8 s b.toNat) (Text.unescape text.toList) ss ∧
      bytesLiteral text = "new byte[] \x7b" ++ Text.joined ", " (ss.map toString) ++ "\x7d" := by
  refine ⟨(Text.unescape text.toList).map fun b => Word.signed 8 b.toNat, ?_, ?_⟩
  · rw [List.forall₂_map_right_iff, List.forall₂_same]
    exact fun b _ => Word.signed_stands 7 b.toNat
  · rw [bytesLiteral, List.map_map]
    rfl

theorem not_mem_toString {c : Char} (hc : c ≠ '-') (hd : c.isDigit = false) (s : Int) :
    c ∉ (toString s).toList := by
  intro h
  rcases Text.of_mem_int h with rfl | h
  · exact hc rfl
  · rw [hd] at h
    exact Bool.noConfusion h

/-- Signed bytes are read back one by one. -/
theorem bytes_unique {bs bs' : List UInt8} {ss : List Int}
    (h : List.Forall₂ (fun b s => Word.Stands 8 s b.toNat) bs ss)
    (h' : List.Forall₂ (fun b s => Word.Stands 8 s b.toNat) bs' ss) : bs = bs' := by
  induction h generalizing bs' with
  | nil =>
    cases h'
    rfl
  | @cons b s bs ss hb _ ih =>
    cases h' with
    | @cons b' _ bs' _ hb' h' =>
      have heq : b = b' := UInt8.toNat_inj.mp (hb.unique hb' b.toNat_lt b'.toNat_lt)
      rw [heq, ih h']

theorem joined_toString_injective {ss ss' : List Int}
    (h : Text.joined ", " (ss.map toString) = Text.joined ", " (ss'.map toString)) : ss = ss' := by
  have hpiece : ∀ ss : List Int, ∀ t ∈ ss.map toString, t ≠ "" ∧ ',' ∉ t.toList := by
    intro ss t ht
    obtain ⟨s, -, rfl⟩ := List.mem_map.mp ht
    constructor
    · exact fun he => Text.toList_int_ne_nil s (by rw [he]; rfl)
    · exact not_mem_toString (by decide) (by decide) s
  have hsep : (", " : String) = String.singleton ',' ++ " " := rfl
  rw [hsep] at h
  have hmap := Text.joined_padded_inj (by decide) (hpiece ss) (hpiece ss') h
  exact List.map_injective_iff.mpr Text.toString_int_injective hmap

theorem append_number_unique {name name' : String} {k k' : Int}
    (h : name ++ ".forNumber(" ++ toString k ++ ")" =
      name' ++ ".forNumber(" ++ toString k' ++ ")") : k = k' := by
  have hsplit : ∀ (name : String) (k : Int), (name ++ ".forNumber(" ++ toString k).toList =
      (name ++ ".forNumber").toList ++ '(' :: (toString k).toList := by
    intro name k
    have hcall : (".forNumber(" : String) = ".forNumber" ++ "(" := rfl
    rw [hcall, ← String.append_assoc, String.toList_append, String.toList_append]
    rw [List.append_assoc]
    rfl
  have hlist := congrArg String.toList ((String.append_left_inj ")").mp h)
  rw [hsplit, hsplit] at hlist
  have hfree := fun k => not_mem_toString (c := '(') (by decide) (by decide) k
  obtain ⟨-, hnumber⟩ := Text.append_sep_injective (hfree k) (hfree k') hlist
  exact Text.toString_int_injective (String.toList_injective hnumber)

theorem getLast?_append_singleton (s : String) (c : Char) :
    (s ++ String.singleton c).toList.getLast? = some c := by
  rw [String.toList_append, String.toList_singleton, List.getLast?_concat]

/-- The last character of a literal tells the kind of what it says. -/
def Meaning.mark? : Meaning → Option Char
  | word32 _ => none
  | word64 _ => some 'L'
  | bytes _ => some '\x7d'
  | enum _ => some ')'

theorem Writes.mark? {v : Meaning} (h : Writes ctx x i v literal) :
    literal.toList.getLast?.filter (fun c => c = 'L' ∨ c = '\x7d' ∨ c = ')') = v.mark? := by
  cases h with
  | @word32 n s _ =>
    rw [Meaning.mark?, Option.filter_eq_none_iff]
    intro c hc
    rcases Text.of_mem_int (List.mem_of_getLast? hc) with rfl | hd
    · decide
    · simp only [decide_eq_true_eq]
      rintro (rfl | rfl | rfl) <;> exact absurd hd (by decide)
  | word64 _ =>
    rw [show (_ ++ "L" : String) = _ ++ String.singleton 'L' from rfl, getLast?_append_singleton]
    rfl
  | bytes _ =>
    rw [show (_ ++ "\x7d" : String) = _ ++ String.singleton '\x7d' from rfl,
      getLast?_append_singleton]
    rfl
  | enum _ =>
    rw [show (_ ++ ")" : String) = _ ++ String.singleton ')' from rfl, getLast?_append_singleton]
    rfl

theorem Means.lt32 {g : Graph} {n : Nat} (h : Means g x (.word32 n)) : n < 2 ^ 32 := by
  cases h
  assumption

theorem Means.lt64 {g : Graph} {n : Nat} (h : Means g x (.word64 n)) : n < 2 ^ 64 := by
  cases h
  assumption

/-- What a literal says can be read off it, whatever classes are imported. -/
theorem Writes.unique {g : Graph} {x' : Field} {v v' : Meaning} {literal' : String}
    (hv : Means g x v) (hv' : Means g x' v') (h : Writes ctx x i v literal)
    (h' : Writes ctx x' i' v' literal') (heq : literal = literal') : v = v' := by
  have hmark : v.mark? = v'.mark? := by rw [← h.mark?, ← h'.mark?, heq]
  cases h with
  | word32 hs =>
    cases h' with
    | word32 hs' =>
      obtain rfl := Text.toString_int_injective heq
      rw [hs.unique hs' hv.lt32 hv'.lt32]
    | _ => simp [Meaning.mark?] at hmark
  | word64 hs =>
    cases h' with
    | word64 hs' =>
      obtain rfl := Text.toString_int_injective ((String.append_left_inj "L").mp heq)
      rw [hs.unique hs' hv.lt64 hv'.lt64]
    | _ => simp [Meaning.mark?] at hmark
  | bytes hs =>
    cases h' with
    | bytes hs' =>
      have hjoined := (String.append_right_inj _).mp ((String.append_left_inj "\x7d").mp heq)
      obtain rfl := joined_toString_injective hjoined
      rw [bytes_unique hs hs']
    | _ => simp [Meaning.mark?] at hmark
  | enum hid =>
    cases h' with
    | enum hid' => rw [append_number_unique heq]
    | _ => simp [Meaning.mark?] at hmark

end Literals

section Fields

variable {raws : List Descriptor.File} {g : Graph} {m : Option Message} {x : Field} {v : Meaning}
  {ctx : Context} {text : String} (hg : Graph.build raws = .ok g)
  (hr : ∀ m f, g.Declares m f → g.Refers f) (hctx : ctx.toScope = scopeOf g)
  (hx : g.Declares m x) (hrep : x.isRepeated = false) (hd : x.defaultValue = some text)

include hg hr hctx hx hrep hd

/-- The constant of a scalar is its literal, whatever is imported. -/
theorem renders_scalar {scalar : Scalar} (hs : Scalar.ofType? x.type = some scalar) (i : Imports) :
    ctx.Renders m x i (scalar.literal text) := by
  obtain ⟨p, hp⟩ : ∃ p, (scopeOf g).classify m x = .ok p := by
    apply exists_eq_ok_iff.mpr
    intro e he
    cases (classify_eq_error_iff hg hr (hr m x hx)).mp he with
    | malformedEntry hrep' => simp [hrep] at hrep'
    | unknownDefault _ ht => simp [ht, Scalar.ofType?] at hs
  refine ⟨p, hctx ▸ hp, ?_⟩
  obtain ⟨w, hw, -, hdefault, -⟩ := classify_ok hp
  obtain rfl := (value_of_scalar hs).mp hw
  simp only [Scope.default, hrep, hd] at hdefault
  have hliteral : p.default = some (.literal (scalar.literal text)) := (Except.ok.inj hdefault).symm
  simp only [Property.defaultValue, hliteral]
  rfl

/-- The constant of an enum is the value of the first one of the name. -/
theorem renders_enum {id : Schema.EnumId} {before after : List Schema.EnumValue}
    {value : Schema.EnumValue} (ht : x.type = .enum) (hid : g.FindsEnum x.typeName id)
    (hvalues : (g.enumType id).values = before ++ value :: after) (hname : value.name = text)
    (hfirst : ∀ u ∈ before, u.name ≠ text) (i : Imports) :
    ctx.Renders m x i
      (((ctx.referEnum id).run i).1 ++ ".forNumber(" ++ toString value.number ++ ")") := by
  have hunique : ∀ id', g.FindsEnum x.typeName id' → id' = id := fun id' hid' =>
    TypeRef.enum.inj (Except.ok.inj (hid'.resolve.symm.trans hid.resolve))
  obtain ⟨p, hp⟩ : ∃ p, (scopeOf g).classify m x = .ok p := by
    apply exists_eq_ok_iff.mpr
    intro e he
    cases (classify_eq_error_iff hg hr (hr m x hx)).mp he with
    | malformedEntry hrep' => simp [hrep] at hrep'
    | unknownDefault _ _ hd' hid' hall =>
      obtain rfl := Option.some.inj (hd.symm.trans hd')
      obtain rfl := hunique _ hid'
      exact hall _ (hvalues ▸ List.mem_append_right _ List.mem_cons_self) hname
  refine ⟨p, hctx ▸ hp, ?_⟩
  obtain ⟨w, hw, -, hdefault, -⟩ := classify_ok hp
  obtain ⟨id', hid', rfl⟩ := (value_of_enum hg ht).mp hw
  obtain rfl := hunique _ hid'
  have hfind : (g.enumType id').valueNamed? text = some value := by
    have hnone : before.find? (·.name = text) = none := by simpa [List.find?_eq_none] using hfirst
    simp [Schema.EnumType.valueNamed?, hvalues, hnone, hname]
  simp only [Scope.default, hrep, hd] at hdefault
  have hvalue : p.default = some (.enum id' value.number) := by simpa [hfind] using hdefault.symm
  simp only [Property.defaultValue, hvalue]
  rfl

omit hd

/-- What a default says is written as a literal for it. -/
theorem Means.exists_renders (hv : Means g x v) (i : Imports) :
    ∃ literal, ctx.Renders m x i literal ∧ Writes ctx x i v literal := by
  cases hv with
  | word32 ht hd hn htext =>
    have hs : Scalar.ofType? x.type = some .uint32 := by rcases ht with ht | ht <;> rw [ht] <;> rfl
    obtain ⟨s, hstands, hliteral⟩ := unsignedLiteral_stands (k := 31) hn htext
    exact ⟨_, hliteral ▸ renders_scalar hg hr hctx hx hrep hd hs i, .word32 hstands⟩
  | @word64 text n ht hd hn htext =>
    have hs : Scalar.ofType? x.type = some .uint64 := by rcases ht with ht | ht <;> rw [ht] <;> rfl
    obtain ⟨s, hstands, hliteral⟩ := unsignedLiteral_stands (k := 63) hn htext
    have hrenders := renders_scalar hg hr hctx hx hrep hd hs i
    rw [show Scalar.literal text .uint64 = unsignedLiteral 64 text ++ "L" from rfl, hliteral]
      at hrenders
    exact ⟨_, hrenders, .word64 hstands⟩
  | @bytes text ht hd =>
    have hs : Scalar.ofType? x.type = some .bytes := by rw [ht]; rfl
    obtain ⟨ss, hstands, hliteral⟩ := bytesLiteral_stands text
    exact ⟨_, hliteral ▸ renders_scalar hg hr hctx hx hrep hd hs i, .bytes hstands⟩
  | enum ht hd hid hvalues hname hfirst =>
    have hgraph : ctx.graph = g := congrArg Scope.graph hctx
    exact ⟨_, renders_enum hg hr hctx hx hrep hd ht hid hvalues hname hfirst i,
      .enum (hgraph ▸ hid)⟩

end Fields

/-- Defaults of unsigned integers, bytes and enums are written as Java literals that are in range
and keep what the defaults say; different ones have different literals, whatever is imported. -/
theorem classify_defaults {raws : List Descriptor.File} {g : Graph} {ctx : Context}
    (hg : Graph.build raws = .ok g) (hcheck : g.checkReferences g.index = .ok ())
    (hctx : ctx.toScope = scopeOf g) :
    (∀ m x v, g.Declares m x → x.isRepeated = false → Means g x v →
      ∀ i, ∃ literal, ctx.Renders m x i literal ∧ Writes ctx x i v literal) ∧
    ∀ m x v m' x' v', g.Declares m x → x.isRepeated = false → Means g x v →
      g.Declares m' x' → x'.isRepeated = false → Means g x' v' →
      ∀ i i' literal, ctx.Renders m x i literal → ctx.Renders m' x' i' literal → v = v' := by
  have hr := (Graph.checkReferences_iff hg).mp hcheck
  have hwrites : ∀ m x v, g.Declares m x → x.isRepeated = false → Means g x v → ∀ i literal,
      ctx.Renders m x i literal → Writes ctx x i v literal := by
    rintro m x v hx hrep hv i literal ⟨p, hp, hliteral⟩
    obtain ⟨literal', ⟨p', hp', hliteral'⟩, hwrites⟩ := hv.exists_renders hg hr hctx hx hrep i
    obtain rfl := Except.ok.inj (hp.symm.trans hp')
    rwa [Option.some.inj (hliteral.symm.trans hliteral')]
  constructor
  · intro m x v hx hrep hv i
    exact hv.exists_renders hg hr hctx hx hrep i
  · intro m x v m' x' v' hx hrep hv hx' hrep' hv' i i' literal h h'
    exact (hwrites m x v hx hrep hv i literal h).unique hv hv'
      (hwrites m' x' v' hx' hrep' hv' i' literal h') rfl

/-- A file with a default at the upper bound of its unsigned type, and one of bytes. -/
def meter : Descriptor.File where
  name := "meter.proto"
  package := "meter"
  messages := [{ name := "Meter", fields := [
    { name := "limit", number := 1, type := 13, defaultValue := some "4294967295" },
    { name := "mask", number := 2, type := 12, defaultValue := some "\\377a" }] }]

theorem classify_defaults_meter :
    ∃ g m limit mask, Graph.build [meter] = .ok g ∧ m.fields = [limit, mask] ∧
      let ctx := Context.prepare ⟨"bean", "conv", .type, false⟩ g [0]
      ∀ i, ctx.Renders (some m) limit i "-1" ∧
        ∃ literal, ctx.Renders (some m) mask i literal ∧
          Writes ctx mask i (.bytes [255, 97]) literal := by
  let g := (Graph.build [meter]).toOption.getD default
  let m := g.message ⟨0, 0⟩
  let ctx := Context.prepare ⟨"bean", "conv", .type, false⟩ g [0]
  have hg : Graph.build [meter] = .ok g := rfl
  have hcheck : g.checkReferences g.index = .ok () := by decide +kernel
  have hdeclares : ∀ x ∈ m.fields, g.Declares (some m) x := fun x hx => Graph.declares_field hx
  have hlimit : Means g m.fields[0] (.word32 4294967295) :=
    .word32 (Or.inl rfl) rfl (by decide) (Decimal.denotes_toString 4294967295)
  have hbytes : Text.unescape "\\377a".toList = [255, 97] := by decide +kernel
  have hmask : Means g m.fields[1] (.bytes [255, 97]) := hbytes ▸ .bytes rfl rfl
  have hctx : ctx.toScope = scopeOf g := rfl
  obtain ⟨hwritten, -⟩ := classify_defaults hg hcheck hctx
  refine ⟨g, m, m.fields[0], m.fields[1], hg, rfl, fun i => ⟨?limit, ?mask⟩⟩
  case limit =>
    obtain ⟨literal, hr, hw⟩ := hwritten (some m) _ _ (hdeclares _ (by simp)) rfl hlimit i
    cases hw with
    | @word32 _ s hs =>
      have hlow := hs.low
      have hhigh := hs.high
      have hmod : s % 2 ^ 32 = 4294967295 % 2 ^ 32 := hs.modEq
      obtain rfl : s = -1 := by omega
      exact hr
  case mask =>
    exact hwritten (some m) _ _ (hdeclares _ (by simp)) rfl hmask i

end Mapping

end ProtoJava
