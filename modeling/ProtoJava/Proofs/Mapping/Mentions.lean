import ProtoJava.Proofs.Java.Imports
import ProtoJava.Proofs.Mapping.Referring
import ProtoJava.Proofs.Mapping.Shapes

/-! # Mentioned classes

Which classes a text names, whatever has been named before it. A property names the classes of the
values it holds, and classes of the Java libraries.
-/

namespace ProtoJava.Mapping

open Java (ClassName Imports)

/-- A text that names only classes with a property. -/
inductive Mentions (P : ClassName → Prop) : {α : Type} → Referring α → Prop
  | pure {α : Type} (a : α) : Mentions P (Pure.pure a)
  | refer {c : ClassName} : P c → Mentions P (refer c)
  | bind {α β : Type} {x : Referring α} {f : α → Referring β} :
      Mentions P x → (∀ a, Mentions P (f a)) → Mentions P (x >>= f)

/-- What is imported for a class. -/
def importEntry (c : ClassName) : String × String :=
  (c.outermost, c.package ++ "." ++ c.outermost)

namespace Mentions

variable {α β : Type} {P Q : ClassName → Prop} {x : Referring α}

theorem mapM {f : α → Referring β} {l : List α} (h : ∀ a ∈ l, Mentions P (f a)) :
    Mentions P (l.mapM f) := by
  induction l with
  | nil => exact .pure []
  | cons a l ih =>
    rw [List.forall_mem_cons] at h
    rw [List.mapM_cons]
    exact .bind h.1 fun _ => .bind (ih h.2) fun _ => .pure _

/-- A part that is there on a condition only. -/
theorem optional {γ : Type} {g : α → β} {d : β} {rest : β → Referring γ} (h : Mentions P x)
    (hr : ∀ b, Mentions P (rest b)) (present : Bool) :
    Mentions P (if present then do
        let b ← Pure.pure (g (← x))
        rest b
      else do
        let b ← Pure.pure d
        rest b) := by
  split
  · exact .bind h fun _ => .bind (.pure _) hr
  · exact .bind (.pure _) hr

/-- Imports keep what naming each of the classes keeps. -/
theorem yields {I : Imports → Prop} (h : Mentions P x)
    (hI : ∀ i c, I i → P c → I (i.reference c).2) : Yields I x fun _ => True := by
  induction h with
  | pure a => exact Yields.pure trivial
  | refer hc => exact fun i hi => ⟨trivial, hI i _ hi hc⟩
  | bind _ _ ihx ihf => exact Yields.bind ihx fun a _ => ihf a

/-- Naming a class imports this class or none. -/
theorem imported_reference (i : Imports) (c : ClassName) :
    (i.reference c).2.imported = i.imported ∨
      (i.reference c).2.imported = importEntry c :: i.imported := by
  have h := i.reference_answers c
  generalize i.reference c = answer at h ⊢
  cases h with
  | imported => exact Or.inr rfl
  | _ => exact Or.inl rfl

/-- A text imports only classes that it names. -/
theorem imported (h : Mentions P x) {i : Imports} {e : String × String}
    (he : e ∈ (x.run i).2.imported) : e ∈ i.imported ∨ ∃ c, P c ∧ e = importEntry c := by
  let I : Imports → Prop := fun j =>
    ∀ e ∈ j.imported, e ∈ i.imported ∨ ∃ c, P c ∧ e = importEntry c
  have hI : ∀ j c, I j → P c → I (j.reference c).2 := by
    intro j c hj hc e he
    rcases imported_reference j c with h | h
    · exact hj e (h ▸ he)
    · rcases List.mem_cons.mp (h ▸ he) with rfl | he
      · exact Or.inr ⟨c, hc, rfl⟩
      · exact hj e he
  exact (h.yields hI i fun e he => Or.inl he).2 e he

end Mentions

/-- The single values of a field; of a map, those under its keys. -/
def Kind.element : Kind → Value
  | .scalar v _ => .scalar v
  | .message id _ => .message id
  | .enum id _ => .enum id
  | .map _ v | .variant _ v | .extension _ v _ => v

/-- The values that the text for a property deals with: what it holds, and its default. -/
def Property.values (p : Property) : List Value :=
  p.kind.element :: match p.default with
    | some (.enum id _) => [.enum id]
    | _ => []

section Classify

variable {s : Scope} {m : Option Schema.Message} {f : Schema.Field} {p : Property} {v : Value}

theorem map_of_mapOf {entry : Schema.MessageId} {kind : Kind} (h : s.mapOf entry = .ok kind) :
    ∃ key, kind = .map key kind.element := by
  rw [Scope.mapOf] at h
  split at h
  · next key _ _ _ =>
    obtain ⟨v, -, rfl⟩ := map_eq_ok_iff.mp h
    exact ⟨key, rfl⟩
  · cases h

/-- A field holds values of its type, or values of a map whose entries are of its type. -/
theorem element_of_classify (h : s.classify m f = .ok p) :
    s.value f = .ok p.kind.element ∨ ∃ entry key, s.value f = .ok (.message entry) ∧
      f.isRepeated ∧ (s.graph.message entry).mapEntry ∧ p.kind = .map key p.kind.element ∧
      s.mapOf entry = .ok p.kind := by
  obtain ⟨v, hv, hk, -, -⟩ := classify_ok h
  unfold Scope.kind at hk
  split at hk
  · obtain ⟨id, -, hk⟩ := map_eq_ok_iff.mp hk
    rw [hv, ← hk]
    exact Or.inl rfl
  · rw [hv, ← Except.ok.inj hk]
    exact Or.inl rfl
  · cases v with
    | scalar v =>
      rw [hv, ← Except.ok.inj hk]
      exact Or.inl rfl
    | enum id =>
      rw [hv, ← Except.ok.inj hk]
      exact Or.inl rfl
    | message id =>
      rw [Scope.plainKind] at hk
      split at hk
      · next hmap =>
        obtain ⟨hrepeated, hentry⟩ := Bool.and_eq_true_iff.mp hmap
        obtain ⟨key, hkey⟩ := map_of_mapOf hk
        exact Or.inr ⟨id, key, hv, hrepeated, hentry, hkey, hk⟩
      · rw [hv, ← Except.ok.inj hk]
        exact Or.inl rfl

/-- The values of a map are those of the second field of its entries. -/
theorem mapOf_ok {entry : Schema.MessageId} {key : Scalar} (h : s.mapOf entry = .ok (.map key v)) :
    ∃ f ∈ (s.graph.message entry).fields, s.value f = .ok v := by
  rw [Scope.mapOf] at h
  split at h
  · next hf =>
    obtain ⟨v', hv, h⟩ := map_eq_ok_iff.mp h
    obtain ⟨-, rfl⟩ := Kind.map.inj h
    exact ⟨_, List.mem_of_find?_eq_some hf, hv⟩
  · cases h

/-- An enum that gives the default of a field is the type of the field. -/
theorem default_enum {id : Schema.EnumId} {number : Int}
    (h : s.default f v = .ok (some (.enum id number))) : v = .enum id := by
  unfold Scope.default at h
  split at h
  · exact nomatch h
  · split at h
    · exact nomatch h
    · simp at h
    · split at h
      · obtain ⟨rfl, -⟩ := Default.enum.inj (Option.some.inj (Except.ok.inj h))
        rfl
      · exact nomatch h

/-- Each value of a field is of its type, or of the type of a field in the entries of its map. -/
theorem value_of_classify (h : s.classify m f = .ok p) (hv : v ∈ p.values) :
    s.value f = .ok v ∨ ∃ entry key, s.value f = .ok (.message entry) ∧ f.isRepeated ∧
      (s.graph.message entry).mapEntry ∧ s.mapOf entry = .ok (.map key v) := by
  obtain ⟨v', hv', -, hd, -⟩ := classify_ok h
  rcases List.mem_cons.mp hv with rfl | hv
  · rcases element_of_classify h with he | ⟨entry, key, he, hr, hm, hkey, hk⟩
    · exact Or.inl he
    · exact Or.inr ⟨entry, key, he, hr, hm, hkey ▸ hk⟩
  · split at hv
    · next hdefault =>
      obtain rfl := List.mem_singleton.mp hv
      exact Or.inl (default_enum (hdefault ▸ hd) ▸ hv')
    · simp at hv

end Classify

/-- The classes of `java.util` that beans name. -/
def utilities : List ClassName :=
  [listClass, mapClass, arrayListClass, hashMapClass, arraysClass]

theorem package_of_mem_utilities {c : ClassName} (h : c ∈ utilities) :
    c.package ∈ Java.libraryPackages := by
  have hall : ∀ c ∈ utilities, c.package ∈ Java.libraryPackages := by decide
  exact hall c h

section Texts

variable {P : ClassName → Prop} {ctx : Context}

/-- The class of a value in beans, if it has one, satisfies `P`. -/
def Context.Admits (ctx : Context) (P : ClassName → Prop) : Value → Prop
  | .scalar _ => True
  | .message id => P (ctx.names.messageClass ctx.graph id)
  | .enum id => P (ctx.names.enumClass ctx.graph id)

theorem referMessage_mentions {id : Schema.MessageId} (h : ctx.Admits P (.message id)) :
    Mentions P (ctx.referMessage id) :=
  .refer h

theorem referEnum_mentions {id : Schema.EnumId} (h : ctx.Admits P (.enum id)) :
    Mentions P (ctx.referEnum id) :=
  .refer h

theorem firstConstant_mentions {id : Schema.EnumId} (h : ctx.Admits P (.enum id)) :
    Mentions P (ctx.firstConstant id) := by
  unfold Context.firstConstant
  split
  · exact .pure _
  · exact .bind (referEnum_mentions h) fun _ => .pure _

theorem Value.type_mentions {v : Value} (h : ctx.Admits P v) (boxed : Bool) :
    Mentions P (v.type ctx boxed) := by
  cases v with
  | scalar v => exact .pure _
  | message id => exact referMessage_mentions h
  | enum id => exact referEnum_mentions h

theorem Value.zero_mentions {v : Value} (h : ctx.Admits P v) : Mentions P (v.zero ctx) := by
  cases v with
  | scalar v => exact .pure _
  | message id => exact .pure _
  | enum id => exact firstConstant_mentions h

variable (hl : ∀ c ∈ utilities, P c)

include hl

theorem repeatedType_mentions {v : Value} (h : ctx.Admits P v) (repeated boxed : Bool) :
    Mentions P (Property.repeatedType ctx v repeated boxed) := by
  have hlist : P listClass := hl _ (by decide)
  unfold Property.repeatedType
  split
  · exact .bind (Value.type_mentions h true) fun _ => .bind (.refer hlist) fun _ => .pure _
  · exact Value.type_mentions h boxed

theorem newInstance_mentions {c : ClassName} (h : c ∈ utilities) :
    Mentions P (Property.newInstance c) :=
  .bind (.refer (hl c h)) fun _ => .pure _

variable {p : Property} (hp : ∀ v ∈ p.values, ctx.Admits P v)

include hp

omit hl in
theorem admits_element : ctx.Admits P p.kind.element :=
  hp _ List.mem_cons_self

theorem Property.type_mentions : Mentions P (p.type ctx) := by
  have helement := admits_element hp
  have hmap : P mapClass := hl _ (by decide)
  unfold Property.type
  generalize p.kind = kind at helement
  cases kind with
  | scalar v repeated => exact repeatedType_mentions hl helement _ _
  | message id repeated => exact repeatedType_mentions hl helement _ _
  | enum id repeated => exact repeatedType_mentions hl helement _ _
  | extension extendee payload repeated => exact repeatedType_mentions hl helement _ _
  | variant oneof payload => exact Value.type_mentions helement false
  | map key v =>
    exact .bind (.refer hmap) fun _ => .bind (Value.type_mentions helement true) fun _ => .pure _

omit hl in
theorem Property.defaultValue_mentions : Mentions P (p.defaultValue ctx) := by
  unfold Property.defaultValue
  split
  · exact .pure _
  · exact .pure _
  · next id number hd =>
    have hdefault : ctx.Admits P (.enum id) := hp _ (by simp [Property.values, hd])
    exact .bind (referEnum_mentions hdefault) fun _ => .pure _

theorem Property.initializer_mentions (constant : Option String) :
    Mentions P (p.initializer ctx constant) := by
  have helement := admits_element hp
  unfold Property.initializer
  split
  · exact .pure _
  · split
    · exact .pure _
    · split
      · exact newInstance_mentions hl (by decide)
      · exact newInstance_mentions hl (by decide)
      · exact newInstance_mentions hl (by decide)
      · exact newInstance_mentions hl (by decide)
      · exact .pure _
      · next hk =>
        rw [hk] at helement
        exact .bind (firstConstant_mentions helement) fun _ => .pure _
      · exact .pure _

omit hl in
theorem Property.fallback_mentions (constant : Option String) :
    Mentions P (p.fallback ctx constant) := by
  have helement := admits_element hp
  unfold Property.fallback
  split
  · exact .pure _
  · split
    · next hk =>
      rw [hk] at helement
      exact Value.zero_mentions helement
    · exact .pure _

end Texts

/-- All values that a member holds satisfy `Q`. -/
def Member.Holds (Q : Value → Prop) (m : Member) : Prop :=
  ∀ v ∈ m.property.values, Q v

theorem Member.Holds.value {Q : Value → Prop} {m : Member} {v : Value} (h : m.Holds Q)
    (hv : m.property.value? = some v) : Q v := by
  have helement : m.property.kind.element = v := by
    unfold Property.value? at hv
    split at hv
    all_goals simp_all [Kind.element]
  exact helement ▸ h _ List.mem_cons_self

def Union.Holds (Q : Value → Prop) (u : Union) : Prop :=
  ∀ v ∈ u.variants, v.member.Holds Q

def Item.Holds (Q : Value → Prop) : Item → Prop
  | .field m => m.Holds Q
  | .union u => u.Holds Q

/-- All values in a message satisfy `Q`. -/
structure Shape.Holds (Q : Value → Prop) (s : Shape) : Prop where
  members : ∀ m ∈ s.members, m.Holds Q
  unions : ∀ u, some u ∈ s.unions → u.Holds Q

theorem Shape.Holds.mp {Q R : Value → Prop} {s : Shape} (h : s.Holds Q)
    (hr : s.Holds fun v => Q v → R v) : s.Holds R where
  members m hm v hv := hr.members m hm v hv (h.members m hm v hv)
  unions u hu w hw v hv := hr.unions u hu w hw v hv (h.unions u hu w hw v hv)

section Shapes

variable {Q : Value → Prop} {ctx : Context} {s : Shape}

theorem Shape.Holds.items (h : s.Holds Q) : ∀ item ∈ s.items, item.Holds Q := by
  intro item hi
  obtain ⟨m, hm, rfl⟩ | ⟨u, hu, rfl⟩ := Shape.items_cases hi
  · exact h.members m hm
  · exact h.unions u hu

theorem Shape.ofProperties_holds {m : Schema.Message} {n : Naming.MessageNames}
    {ps : List Property} (hp : ∀ p ∈ ps, ∀ v ∈ p.values, Q v) :
    (Shape.ofProperties m n ps).Holds Q := by
  have hmembers : ∀ m' ∈ (Shape.ofProperties m n ps).members, m'.Holds Q := by
    intro m' hm'
    obtain ⟨p, hmem, names, -, rfl⟩ := mem_of_mem_zipWith hm'
    exact hp p hmem
  refine ⟨hmembers, fun u hu v hv => ?_⟩
  obtain ⟨oneof, -, names, -, hu⟩ := mem_of_mem_zipWith hu
  obtain ⟨names, rfl, rfl⟩ := Option.map_eq_some_iff.mp hu
  obtain ⟨_, -, hv⟩ := List.mem_filterMap.mp hv
  obtain ⟨m', hm', rfl⟩ := Option.map_eq_some_iff.mp hv
  exact hmembers m' (List.mem_of_getElem? hm')

/-- What all fields of a message become decides what its shape holds. -/
theorem Shape.of_holds {id : Schema.MessageId} (h : Shape.of ctx id = .ok s)
    (hp : ∀ f ∈ (ctx.graph.message id).fields, ∀ p,
      ctx.classify (some (ctx.graph.message id)) f = .ok p → ∀ v ∈ p.values, Q v) :
    s.Holds Q := by
  obtain ⟨ps, hps, rfl⟩ := Shape.of_eq_ok_iff.mp h
  refine Shape.ofProperties_holds fun p hmem => ?_
  obtain ⟨f, hf, hok⟩ := forall₂_exists_right hps hmem
  exact hp f hf p hok

end Shapes

end ProtoJava.Mapping
