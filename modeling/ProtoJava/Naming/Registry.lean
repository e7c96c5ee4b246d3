import ProtoJava.Naming.Reserved

/-! # Registries of names

A registry holds the names taken in one scope. A claim for a taken name is answered with the least
numbered variant that is still free, so an earlier claim keeps its name.
-/

namespace ProtoJava.Naming

/-- The names taken in one scope. -/
structure Registry where
  taken : List String := []
deriving Repr, DecidableEq, Inhabited

namespace Registry

def empty : Registry := {}

/-- A registry in which the reserved names are taken. -/
def reserving : Registry := ⟨keywords ++ libraryTypes⟩

def contains (r : Registry) (name : String) : Bool :=
  r.taken.contains name

def reserve (r : Registry) (names : List String) : Registry :=
  ⟨names ++ r.taken⟩

/-- The first number from `n` on, among `count` of them, whose variant of `name` is free. -/
def freeNumber (r : Registry) (name : String) : Nat → Nat → Nat
  | 0, n => n
  | count + 1, n =>
    if r.contains (name ++ toString n) then freeNumber r name count (n + 1) else n

/-- The name that a claim for `name` is answered with. -/
def answer (r : Registry) (name : String) : String :=
  if r.contains name then name ++ toString (r.freeNumber name r.taken.length 1) else name

/-- Answers a claim and takes the answer. -/
def claim (r : Registry) (name : String) : String × Registry :=
  (r.answer name, ⟨r.answer name :: r.taken⟩)

/-- Answers claims in order. -/
def claimAll (r : Registry) : List String → List String × Registry
  | [] => ([], r)
  | name :: rest =>
    let (given, r) := r.claim name
    let (others, r) := r.claimAll rest
    (given :: others, r)

/-- Answers claims in order, each made for a role in the scope. -/
def grant {ρ : Type} (r : Registry) (requests : List (ρ × String)) : List (ρ × String) × Registry :=
  let (given, r) := r.claimAll (requests.map (·.2))
  ((requests.map (·.1)).zip given, r)

theorem contains_reserve (r : Registry) (names : List String) (name : String) :
    (r.reserve names).contains name = (names.contains name || r.contains name) := by
  simp [reserve, contains]

theorem contains_claim (r : Registry) (asked name : String) :
    (r.claim asked).2.contains name = (name == r.answer asked || r.contains name) :=
  List.contains_cons

theorem answer_of_free {r : Registry} {name : String} (h : r.contains name = false) :
    r.answer name = name := by
  simp [answer, h]

theorem claimAll_length (r : Registry) (names : List String) :
    (r.claimAll names).1.length = names.length := by
  induction names generalizing r with
  | nil => rfl
  | cons _ _ ih => simp [claimAll, ih]

/-- Granting answers every request, for its role and in order. -/
theorem grant_roles {ρ : Type} (r : Registry) (requests : List (ρ × String)) :
    (r.grant requests).1.map (·.1) = requests.map (·.1) := by
  simp [grant, List.map_fst_zip, claimAll_length]

end Registry

/-- The name granted for a role. -/
def nameFor {ρ : Type} [BEq ρ] (granted : List (ρ × String)) (role : ρ) : String :=
  (granted.lookup role).getD ""

end ProtoJava.Naming
