import ProtoJava.Naming.Classes
import ProtoJava.Proofs.Naming.Freshness
import ProtoJava.Proofs.Schema.Built

/-! # Names in class scopes

A type is named in the scope of the message it is nested in, or among the top-level classes. Names
in one scope differ from each other and from the names of the classes around the scope, so the
names from the outermost class inwards determine a type.
-/

namespace ProtoJava.Naming

open Schema (File Message Oneof Field)

/-- The message that a type is nested in. -/
def ClassRole.parent (f : File) : ClassRole → Option Nat
  | .message i => (f.message i).parent
  | .enum i => (f.enumType i).parent
  | _ => none

/-- The types of a file that are given a class name. -/
def ClassRole.Declared (f : File) : ClassRole → Prop
  | .message i => i < f.messages.length ∧ (f.message i).mapEntry = false
  | .enum i => i < f.enums.length
  | _ => False

/-- The name of a type among the names of all types. -/
def typeName (f : File) (types : ClassTable) : ClassRole → String
  | .message i => messageName f types i
  | .enum i => enumName f types i
  | _ => ""

section Requests

variable {f : File} {role : ClassRole}

theorem mem_messageRequests_iff {is : List Nat} :
    role ∈ (messageRequests f is).map (·.1) ↔
      ∃ i ∈ is, (f.message i).mapEntry = false ∧ role = .message i := by
  simp only [messageRequests, List.map_map, List.mem_map, List.mem_filter, Bool.not_eq_true',
    and_assoc, Function.comp_apply, eq_comm (a := role)]

theorem mem_enumRequests_iff {is : List Nat} :
    role ∈ (enumRequests f is).map (·.1) ↔ ∃ i ∈ is, role = .enum i := by
  simp only [enumRequests, List.map_map, List.mem_map, Function.comp_apply, eq_comm (a := role)]

theorem not_mem_unionRequests (ht : role.isType) (os : List Oneof) :
    role ∉ (os.flatMap unionRequests).map (·.1) := by
  simp only [List.map_flatMap, List.mem_flatMap, not_exists, not_and]
  intro o _ h
  unfold unionRequests at h
  split at h
  · simp at h
  · simp only [List.map_cons, List.map_nil, List.mem_cons, List.not_mem_nil, or_false] at h
    rcases h with rfl | rfl <;> simp [ClassRole.isType] at ht

theorem not_mem_wrapperRequests (ht : role.isType) (m : Message) (fs : List Field) :
    role ∉ (fs.flatMap (wrapperRequest m)).map (·.1) := by
  simp only [List.map_flatMap, List.mem_flatMap, not_exists, not_and]
  intro field _ h
  unfold wrapperRequest at h
  split at h
  · simp only [List.map_cons, List.map_nil, List.mem_cons, List.not_mem_nil, or_false] at h
    subst h
    simp [ClassRole.isType] at ht
  · simp at h

theorem mem_topRequests_iff {layout : Layout} (ht : role.isType) :
    role ∈ (topRequests layout f).map (·.1) ↔ role.Declared f ∧ role.parent f = none := by
  have hx : role ≠ .extensions := by
    rintro rfl
    simp [ClassRole.isType] at ht
  have hw : role ≠ .wrapper := by
    rintro rfl
    simp [ClassRole.isType] at ht
  have hr : role ∈ (topRequests layout f).map (·.1) ↔
      role ∈ (messageRequests f f.topMessages).map (·.1) ∨
        role ∈ (enumRequests f f.topEnums).map (·.1) := by
    simp only [topRequests, List.map_append, List.mem_append, or_assoc]
    cases layout <;> by_cases he : f.extensions.isEmpty <;> simp [he, hx, hw]
  rw [hr, mem_messageRequests_iff, mem_enumRequests_iff]
  simp only [File.mem_topMessages_iff, File.mem_topEnums_iff]
  cases role <;> simp [ClassRole.isType] at ht <;>
    simp [ClassRole.Declared, ClassRole.parent, and_right_comm, and_assoc]

theorem mem_scopeRequests_iff (hl : f.Linked) {k : Nat} (hk : k < f.messages.length)
    (ht : role.isType) :
    role ∈ (scopeRequests f k).map (·.1) ↔ role.Declared f ∧ role.parent f = some k := by
  simp only [scopeRequests, List.map_append, List.mem_append, mem_messageRequests_iff,
    mem_enumRequests_iff, not_mem_unionRequests ht, not_mem_wrapperRequests ht, or_false,
    hl.mem_nested_iff hk, hl.mem_enums_iff hk]
  cases role <;> simp [ClassRole.isType] at ht <;>
    simp [ClassRole.Declared, ClassRole.parent, and_right_comm, and_assoc]

end Requests

theorem scopesFrom_length (f : File) (types : ClassTable) (is : List Nat) :
    (scopesFrom f types is).length = is.length := by
  induction is generalizing types with
  | nil => rfl
  | cons i r ih => simp [scopesFrom, ih]

/-- A scope is filled when the types of the scopes before it have been named. -/
theorem scopesFrom_getElem? {f : File} {types : ClassTable} {is : List Nat} {k i : Nat}
    (hi : is[k]? = some i) :
    (scopesFrom f types is)[k]? = some ((scopeRegistry f (types ++
      ((scopesFrom f types is).take k).flatten.filter (·.1.isType)) i).grant
        (scopeRequests f i)).1 := by
  induction is generalizing types k with
  | nil => simp at hi
  | cons j r ih =>
    cases k with
    | zero =>
      obtain rfl := Option.some.inj hi
      simp [scopesFrom]
    | succ k =>
      simp only [List.getElem?_cons_succ] at hi
      simp only [scopesFrom, List.getElem?_cons_succ, ih hi, List.take_succ_cons,
        List.flatten_cons, List.filter_append, List.append_assoc]

/-- Scopes depend on no more than the names of the types before. -/
theorem scopesFrom_congr {f : File} {types types' : ClassTable} {is : List Nat}
    (h : ∀ i, types.lookup (.message i) = types'.lookup (.message i)) :
    scopesFrom f types is = scopesFrom f types' is := by
  induction is generalizing types types' with
  | nil => rfl
  | cons i r ih =>
    have hr : scopeRegistry f types i = scopeRegistry f types' i := by
      have hn : messageName f types = messageName f types' := by
        funext j
        rw [messageName, messageName, h]
      rw [scopeRegistry, scopeRegistry, hn]
    simp only [scopesFrom, hr]
    refine congrArg _ (ih fun j => ?_)
    rw [List.lookup_append, List.lookup_append, h]

namespace Classes

variable {layout : Layout} {f : File} {role : ClassRole} {i j k : Nat}

/-- The scope of the classes in message `i`, or of the classes that are in no message. -/
def scopeOf (c : Classes) : Option Nat → ClassTable
  | none => c.top
  | some i => c.scopes.getD i []

/-- The types named before message `k` is entered. -/
def typesBefore (c : Classes) (k : Nat) : ClassTable :=
  c.top ++ (c.scopes.take k).flatten.filter (·.1.isType)

theorem of_scopes_length : (Classes.of layout f).scopes.length = f.messages.length := by
  simp [Classes.of, scopesFrom_length]

theorem of_scopes_getElem (hk : k < (Classes.of layout f).scopes.length) :
    (Classes.of layout f).scopes[k] =
      ((scopeRegistry f ((Classes.of layout f).typesBefore k) k).grant (scopeRequests f k)).1 := by
  have h : (Classes.of layout f).scopes[k]? = some
      ((scopeRegistry f ((Classes.of layout f).typesBefore k) k).grant (scopeRequests f k)).1 :=
    scopesFrom_getElem? (List.getElem?_range (of_scopes_length ▸ hk))
  obtain ⟨_, h⟩ := List.getElem?_eq_some_iff.mp h
  exact h

theorem scope_roles (hk : k < (Classes.of layout f).scopes.length) :
    (Classes.of layout f).scopes[k].map (·.1) = (scopeRequests f k).map (·.1) := by
  rw [of_scopes_getElem hk, Registry.grant_roles]

theorem top_roles : (Classes.of layout f).top.map (·.1) = (topRequests layout f).map (·.1) :=
  Registry.grant_roles ..

theorem scopeOf_some (hk : k < f.messages.length) :
    (Classes.of layout f).scopeOf (some k) =
      ((scopeRegistry f ((Classes.of layout f).typesBefore k) k).grant (scopeRequests f k)).1 := by
  have hk : k < (Classes.of layout f).scopes.length := of_scopes_length ▸ hk
  rw [← of_scopes_getElem hk]
  simp [scopeOf, hk]

theorem not_mem_scope (hl : f.Linked) (ht : role.isType)
    (hk : k < (Classes.of layout f).scopes.length) (hp : role.parent f ≠ some k) :
    role ∉ (Classes.of layout f).scopes[k].map (·.1) := by
  rw [scope_roles hk, mem_scopeRequests_iff hl (of_scopes_length ▸ hk) ht]
  exact fun h => hp h.2

theorem lookup_types (ht : role.isType) :
    (Classes.of layout f).types.lookup role =
      ((Classes.of layout f).top.lookup role).or
        ((Classes.of layout f).scopes.flatten.lookup role) := by
  rw [types, List.lookup_append, lookup_filter ht]

theorem lookup_typesBefore (ht : role.isType) :
    ((Classes.of layout f).typesBefore k).lookup role =
      ((Classes.of layout f).top.lookup role).or
        (((Classes.of layout f).scopes.take k).flatten.lookup role) := by
  rw [typesBefore, List.lookup_append, lookup_filter ht]

/-- A type is named in the scope around it. -/
theorem types_lookup (hl : f.Linked) (ht : role.isType) (hd : role.Declared f)
    (hp : ∀ p, role.parent f = some p → p < f.messages.length) :
    (Classes.of layout f).types.lookup role =
      some (nameFor ((Classes.of layout f).scopeOf (role.parent f)) role) := by
  rw [lookup_types ht]
  cases h : role.parent f with
  | none =>
    have hm : role ∈ (Classes.of layout f).top.map (·.1) := by
      rw [top_roles, mem_topRequests_iff ht]
      exact ⟨hd, h⟩
    rw [(lookup_eq_some_nameFor hm).1, Option.some_or]
    rfl
  | some p =>
    have hn : (Classes.of layout f).top.lookup role = none := by
      apply lookup_eq_none
      rw [top_roles, mem_topRequests_iff ht]
      simp [h]
    have hk : p < (Classes.of layout f).scopes.length := of_scopes_length ▸ hp p h
    rw [hn, Option.none_or, lookup_flatten hk, scopeOf_some (hp p h), of_scopes_getElem hk]
    · exact lookup_grant ((mem_scopeRequests_iff hl (hp p h) ht).mpr ⟨hd, h⟩)
    · intro j hj hne
      refine not_mem_scope hl ht hj ?_
      rw [h]
      exact fun he => hne (Option.some.inj he).symm

/-- What is named after a scope is entered are other types than the message it belongs to and
those around it. -/
theorem lookup_typesBefore_eq (hl : f.Linked) (hj : j ≤ k) :
    ((Classes.of layout f).typesBefore k).lookup (.message j) =
      (Classes.of layout f).types.lookup (.message j) := by
  have hr : ((Classes.of layout f).scopes.drop k).flatten.lookup (.message j) = none := by
    apply lookup_eq_none
    rw [List.map_flatten, List.mem_flatten]
    rintro ⟨roles, hs, hm⟩
    obtain ⟨scope, hmem, rfl⟩ := List.mem_map.mp hs
    obtain ⟨n, hn, rfl⟩ := List.mem_iff_getElem.mp hmem
    rw [List.length_drop] at hn
    rw [List.getElem_drop] at hm
    refine not_mem_scope hl rfl (k := k + n) (by omega) (fun hp => ?_) hm
    have := hl.parent_lt j (k + n) hp
    omega
  rw [lookup_typesBefore rfl, lookup_types rfl]
  conv_rhs => rw [← List.take_append_drop k (Classes.of layout f).scopes]
  rw [List.flatten_append, List.lookup_append, hr, Option.or_none]

/-- When a scope is entered, the message it belongs to and those around it have their names. -/
theorem messageName_typesBefore (hl : f.Linked) (hj : j ≤ k) :
    messageName f ((Classes.of layout f).typesBefore k) j =
      messageName f (Classes.of layout f).types j := by
  rw [messageName, messageName, lookup_typesBefore_eq hl hj]

end Classes

section Paths

variable {layout : Layout} {f : File} {role role' : ClassRole} {i j : Nat}

theorem ClassRole.Declared.isType (h : role.Declared f) : role.isType := by
  cases role <;> simp_all [ClassRole.Declared, ClassRole.isType]

theorem ClassRole.parent_lt (hl : f.Linked) (h : role.Declared f) {p : Nat}
    (hp : role.parent f = some p) : p < f.messages.length := by
  cases role with
  | message i => exact Nat.lt_trans (hl.parent_lt i p hp) h.1
  | enum i => exact hl.enum_parent_lt i p hp
  | _ => simp [ClassRole.Declared] at h

theorem typeName_eq_nameFor (layout : Layout) (hl : f.Linked) (h : role.Declared f) :
    typeName f (Classes.of layout f).types role =
      nameFor ((Classes.of layout f).scopeOf (role.parent f)) role := by
  have : (Classes.of layout f).types.lookup role = _ :=
    Classes.types_lookup hl h.isType h fun _ => ClassRole.parent_lt hl h
  cases role <;> simp_all [typeName, messageName, enumName, ClassRole.Declared]

theorem messageName_eq_nameFor (layout : Layout) (hl : f.Linked) (hi : i < f.messages.length)
    (he : (f.message i).mapEntry = false) :
    messageName f (Classes.of layout f).types i =
      nameFor ((Classes.of layout f).scopeOf (f.message i).parent) (.message i) := by
  have hd : (ClassRole.message i).Declared f := ⟨hi, he⟩
  have hn := typeName_eq_nameFor layout hl hd
  exact hn

theorem enumName_eq_nameFor (layout : Layout) (hl : f.Linked) (hi : i < f.enums.length) :
    enumName f (Classes.of layout f).types i =
      nameFor ((Classes.of layout f).scopeOf (f.enumType i).parent) (.enum i) := by
  have hd : (ClassRole.enum i).Declared f := hi
  have hn := typeName_eq_nameFor layout hl hd
  exact hn

/-- Requests for the classes in a message, or for those that are in no message. -/
def requestsIn (layout : Layout) (f : File) : Option Nat → ClassTable
  | none => topRequests layout f
  | some k => scopeRequests f k

theorem mem_requestsIn (hl : f.Linked) (h : role.Declared f) :
    role ∈ (requestsIn layout f (role.parent f)).map (·.1) := by
  cases hp : role.parent f with
  | none => exact (mem_topRequests_iff h.isType).mpr ⟨h, hp⟩
  | some k => exact (mem_scopeRequests_iff hl (ClassRole.parent_lt hl h hp) h.isType).mpr ⟨h, hp⟩

theorem Classes.exists_scopeOf_eq_grant {p : Option Nat}
    (hp : ∀ k, p = some k → k < f.messages.length) :
    ∃ r : Registry, (Classes.of layout f).scopeOf p = (r.grant (requestsIn layout f p)).1 := by
  cases p with
  | none => exact ⟨.reserving, rfl⟩
  | some k => exact ⟨_, Classes.scopeOf_some (hp k rfl)⟩

/-- What a type is called was given in answer to a request for it. -/
theorem Classes.exists_request {x : String} (h : (role, x) ∈ (Classes.of layout f).types) :
    ∃ p name, (∀ k ∈ p, k < f.messages.length) ∧ (role, name) ∈ requestsIn layout f p ∧
      IsVariant name x := by
  rw [Classes.types, List.mem_append, List.mem_filter, List.mem_flatten] at h
  rcases h with h | ⟨⟨scope, hs, h⟩, -⟩
  · obtain ⟨name, hm, hv⟩ := Registry.grant_isVariant h
    exact ⟨none, name, by simp, hm, hv⟩
  · obtain ⟨k, hk, rfl⟩ := List.mem_iff_getElem.mp hs
    have hlt : k < f.messages.length := Classes.of_scopes_length ▸ hk
    rw [Classes.of_scopes_getElem hk] at h
    obtain ⟨name, hm, hv⟩ := Registry.grant_isVariant h
    exact ⟨some k, name, by simpa using hlt, hm, hv⟩

/-- Types with the same scope around them have different names. -/
theorem eq_of_typeName_eq (hl : f.Linked) (h : role.Declared f) (h' : role'.Declared f)
    (hp : role.parent f = role'.parent f)
    (hn : typeName f (Classes.of layout f).types role =
      typeName f (Classes.of layout f).types role') : role = role' := by
  obtain ⟨r, hr⟩ : ∃ r : Registry, (Classes.of layout f).scopeOf (role'.parent f) = _ :=
    Classes.exists_scopeOf_eq_grant fun k hk => ClassRole.parent_lt hl h' hk
  rw [typeName_eq_nameFor layout hl h, typeName_eq_nameFor layout hl h', hp, hr] at hn
  have hrole : role ∈ (requestsIn layout f (role'.parent f)).map (·.1) :=
    hp ▸ mem_requestsIn hl h
  have hm := nameFor_mem_grant (r := r) hrole
  rw [hn] at hm
  exact Registry.role_eq_of_grant hm (nameFor_mem_grant (mem_requestsIn hl h'))

/-- The names of the messages around a type, innermost first. -/
def namesAround (layout : Layout) (f : File) : Option Nat → List String
  | none => []
  | some p => (f.enclosing p).map (messageName f (Classes.of layout f).types)

theorem namesAround_some (hl : f.Linked) {p : Nat} :
    namesAround layout f (some p) = messageName f (Classes.of layout f).types p ::
      namesAround layout f (f.message p).parent := by
  cases hp : (f.message p).parent with
  | none => simp [namesAround, File.Linked.enclosing_top hp]
  | some q => simp [namesAround, hl.enclosing_nested hp]

theorem declared_of_shown (h : f.Shown i) : (ClassRole.message i).Declared f :=
  ⟨h.lt, h.mapEntry⟩

/-- The names around a type determine the message it is nested in. -/
theorem namesAround_injective (hl : f.Linked) {p q : Option Nat} (hp : ∀ i ∈ p, f.Shown i)
    (hq : ∀ i ∈ q, f.Shown i) (h : namesAround layout f p = namesAround layout f q) : p = q := by
  -- The outer names fix the scope, and in one scope the innermost name is unique.
  induction hn : namesAround layout f p generalizing p q with
  | nil =>
    rw [hn] at h
    cases p with
    | some i => simp [namesAround_some hl] at hn
    | none =>
      cases q with
      | some j => simp [namesAround_some hl] at h
      | none => rfl
  | cons name rest ih =>
    cases p with
    | none => simp [namesAround] at hn
    | some i =>
      cases q with
      | none =>
        rw [h] at hn
        simp [namesAround] at hn
      | some j =>
        have hi := hp i rfl
        have hj := hq j rfl
        rw [namesAround_some hl] at hn h
        rw [namesAround_some hl] at h
        obtain ⟨hname, hrest⟩ := List.cons.inj h
        have hparent := ih (fun _ => hi.parent) (fun _ => hj.parent) hrest (List.cons.inj hn).2
        have hrole : ClassRole.message i = ClassRole.message j :=
          eq_of_typeName_eq hl (declared_of_shown hi) (declared_of_shown hj) hparent hname
        rw [ClassRole.message.inj hrole]

end Paths

end ProtoJava.Naming
