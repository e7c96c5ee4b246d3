import ProtoJava.Proofs.Naming.Collisions
import ProtoJava.Proofs.Schema.Arena
import ProtoJava.Proofs.Schema.References

/-! # Classes around classes

Bean classes are nested like the types they are made for. What is around a type is found by going
from parent to parent; that ends because parents come before what is nested in them, and for the
same reason the names read on the way are final when a scope is opened.
-/

namespace ProtoJava

namespace Schema

/-- The loop over the parents of a declaration: from a message, or from none, it comes to these
messages and then stops. -/
inductive File.Climbs (f : File) : Option Nat → List Nat → Prop
  | done : f.Climbs none []
  | step {i : Nat} {is : List Nat} : i < f.messages.length →
      f.Climbs (f.message i).parent is → f.Climbs (some i) (i :: is)

/-- A declaration's parent and the messages around that, innermost first. -/
def File.outward (f : File) : Option Nat → List Nat
  | none => []
  | some p => f.enclosing p

section Climbs

variable {f : File} {is is' : List Nat} {p : Option Nat}

theorem File.Climbs.unique (h : f.Climbs p is) (h' : f.Climbs p is') : is = is' := by
  induction h generalizing is' with
  | done =>
    cases h'
    rfl
  | step _ _ ih =>
    cases h' with
    | step _ h' => rw [ih h']

/-- The loop ends: each message it goes on to has a smaller position. -/
theorem File.Linked.climbs_enclosing (hl : f.Linked) {i : Nat} (hi : i < f.messages.length) :
    f.Climbs (some i) (f.enclosing i) := by
  induction i using Nat.strongRecOn with
  | ind i ih =>
    cases hp : (f.message i).parent with
    | none =>
      rw [enclosing_top hp]
      exact .step hi (hp ▸ .done)
    | some q =>
      have hlt := hl.parent_lt i q hp
      rw [hl.enclosing_nested hp]
      exact .step hi (hp ▸ ih q hlt (hlt.trans hi))

theorem File.Linked.climbs_iff (hl : f.Linked) (hp : ∀ i ∈ p, i < f.messages.length) :
    f.Climbs p is ↔ is = f.outward p := by
  have hend : f.Climbs p (f.outward p) := by
    cases p with
    | none => exact .done
    | some i => exact hl.climbs_enclosing (hp i rfl)
  constructor
  · exact fun h => h.unique hend
  · rintro rfl
    exact hend

theorem File.Linked.outward_some (hl : f.Linked) (i : Nat) :
    f.outward (some i) = i :: f.outward (f.message i).parent := by
  cases hp : (f.message i).parent with
  | none => exact enclosing_top hp
  | some q => exact hl.enclosing_nested hp

theorem File.Climbs.lt (h : f.Climbs p is) : ∀ i ∈ is, i < f.messages.length := by
  induction h with
  | done => simp
  | step hi _ ih => exact List.forall_mem_cons.mpr ⟨hi, ih⟩

/-- The type name of a message spells the messages around it, outermost first. -/
theorem File.Climbs.outerName (ht : ∀ i < f.messages.length,
      (f.message i).typeName = f.outerName (f.message i).parent ++ [(f.message i).name])
    (h : f.Climbs p is) : f.outerName p = is.reverse.map fun i => (f.message i).name := by
  induction h with
  | done => rfl
  | @step i is hi _ ih =>
    calc
      f.outerName (some i) = f.outerName (f.message i).parent ++ [(f.message i).name] := ht i hi
      _ = (i :: is).reverse.map fun i => (f.message i).name := by
        rw [ih, List.reverse_cons, List.map_append, List.map_singleton]

end Climbs

theorem Graph.build_typeName {raws : List Descriptor.File} {g : Graph}
    (hg : Graph.build raws = .ok g) (i : Nat) :
    (∀ j < (g.file i).messages.length, ((g.file i).message j).typeName =
      (g.file i).outerName ((g.file i).message j).parent ++ [((g.file i).message j).name]) ∧
    ∀ j < (g.file i).enums.length, ((g.file i).enumType j).typeName =
      (g.file i).outerName ((g.file i).enumType j).parent ++ [((g.file i).enumType j).name] := by
  by_cases hi : i < g.files.length
  · obtain ⟨raw, f, -, hf, hfile⟩ := Graph.build_ok hg (List.getElem?_eq_getElem hi)
    have hfaithful := File.ofDescriptor_faithful hf
    rw [Graph.file_eq_getElem hi, hfile]
    exact ⟨hfaithful.typeName, hfaithful.enum_typeName⟩
  · simp [Graph.file, Nat.le_of_not_lt hi]

/-- What a type is nested in. -/
def Graph.parentOf (g : Graph) : TypeRef → Option Nat
  | .message id => (g.message id).parent
  | .enum id => (g.enumType id).parent

/-- The name a type is declared with. -/
def Graph.nameOf (g : Graph) : TypeRef → String
  | .message id => (g.message id).name
  | .enum id => (g.enumType id).name

/-- The declared names of a type and of what is around it, outermost first. -/
def Graph.typeNameOf (g : Graph) : TypeRef → List String
  | .message id => (g.message id).typeName
  | .enum id => (g.enumType id).typeName

end Schema

namespace Naming

open Java (ClassName)
open Schema (File Graph TypeRef MessageId)

/-- The name of the bean class of a type. -/
def Allocation.className (a : Allocation) : TypeRef → String
  | .message id => (a.message id).className
  | .enum id => (a.enumNames id).className

/-- The protobuf-java class of a type. -/
def Allocation.protoTypeClass (a : Allocation) (g : Graph) : TypeRef → ClassName
  | .message id => a.protoMessageClass g id
  | .enum id => a.protoEnumClass g id

/-- The bean class of a type stands in those of the messages `outer` around it, innermost first. -/
structure Allocation.Nests (a : Allocation) (g : Graph) (layout : Layout) (t : TypeRef)
    (outer : List Nat) : Prop where
  wrapper : (a.file (fileOf t)).wrapperClass.isSome = (layout == .file)
  path : (a.typeClass g t).path = (a.file (fileOf t)).wrapperClass.toList ++
    (outer.reverse.map fun i => (a.message ⟨fileOf t, i⟩).className) ++ [a.className t]
  length : (a.typeClass g t).path.length =
    (g.typeNameOf t).length + if layout = .file then 1 else 0
  /-- The path of what is directly in a message extends that of the message by one name. -/
  parent : ∀ p ∈ g.parentOf t, (a.typeClass g t).path =
    (a.messageClass g ⟨fileOf t, p⟩).path ++ [a.className t]
  protoPath : (a.protoTypeClass g t).path =
    (a.file (fileOf t)).protoOuterClass.toList ++ g.typeNameOf t
  typeName : g.typeNameOf t =
    (outer.reverse.map fun i => (g.message ⟨fileOf t, i⟩).name) ++ [g.nameOf t]
  /-- Position by position, bean classes are called like those of protobuf-java, up to numbers after
  the names. -/
  aligned : ∃ given, (a.typeClass g t).path = (a.file (fileOf t)).wrapperClass.toList ++ given ∧
    List.Forall₂ IsVariant (g.typeNameOf t) given

/-- The classes in a message are named when the message itself and those around it, which are
`chain`, have their final names. -/
structure Allocation.Scopes (a : Allocation) (f : File) (classes : Classes) (id : MessageId)
    (chain : List Nat) : Prop where
  scope : classes.scopeOf (some id.index) = ((Registry.reserving.reserve
    (chain.map fun i => (a.message ⟨id.file, i⟩).className)).grant (scopeRequests f id.index)).1
  /-- A declared name is read in place of a given one for map entries only. -/
  claimed : ∀ i ∈ chain, (f.message i).mapEntry = false →
    (classes.typesBefore id.index).lookup (.message i) =
      some (a.message ⟨id.file, i⟩).className

/-- The second plan puts a class around the one of a type, and has the names of the first. -/
structure Allocation.Wraps (a a' : Allocation) (g : Graph) (t : TypeRef) (wrapper : String) :
    Prop where
  bare : (a.file (fileOf t)).wrapperClass = none
  file : a'.file (fileOf t) = { a.file (fileOf t) with wrapperClass := some wrapper }
  typeClass : a'.typeClass g t =
    { a.typeClass g t with path := wrapper :: (a.typeClass g t).path }

/-- Classes follow from the names of their file. -/
theorem Allocation.Wraps.of_file {a a' : Allocation} {g : Graph} {t : TypeRef} {wrapper : String}
    (hbare : (a.file (fileOf t)).wrapperClass = none)
    (hfile : a'.file (fileOf t) = { a.file (fileOf t) with wrapperClass := some wrapper }) :
    a.Wraps a' g t wrapper := by
  constructor
  case bare => exact hbare
  case file => exact hfile
  case typeClass =>
    cases t <;> simp only [fileOf] at hbare hfile <;>
      simp [Allocation.typeClass, Allocation.messageClass, Allocation.enumClass, Allocation.around,
        Allocation.message, Allocation.enumNames, hbare, hfile]

section Variants

variable {layout : Layout} {f : File} {role : ClassRole} {name x : String} {i : Nat}

/-- The name that a type is declared with. -/
def ClassRole.declaredName (f : File) : ClassRole → String
  | .message i => (f.message i).name
  | .enum i => (f.enumType i).name
  | _ => ""

/-- A class for a type is asked for under the name of the type. -/
theorem requestsIn_name {p : Option Nat} (ht : role.isType)
    (h : (role, name) ∈ requestsIn layout f p) : name = role.declaredName f := by
  have hmessages : ∀ is, (role, name) ∈ messageRequests f is → name = role.declaredName f := by
    intro is h
    obtain ⟨i, -, he⟩ := List.mem_map.mp h
    cases he
    rfl
  have henums : ∀ is, (role, name) ∈ enumRequests f is → name = role.declaredName f := by
    intro is h
    obtain ⟨i, -, he⟩ := List.mem_map.mp h
    cases he
    rfl
  cases p with
  | none =>
    simp only [requestsIn, topRequests, List.mem_append] at h
    rcases h with ((h | h) | h) | h
    · exact hmessages _ h
    · exact henums _ h
    · split at h
      · exact absurd h List.not_mem_nil
      · cases List.mem_singleton.mp h
        exact absurd ht (by decide)
    · cases layout with
      | type => exact absurd h List.not_mem_nil
      | file =>
        cases List.mem_singleton.mp h
        exact absurd ht (by decide)
  | some k =>
    simp only [requestsIn, scopeRequests, List.mem_append] at h
    rcases h with ((h | h) | h) | h
    · exact hmessages _ h
    · exact henums _ h
    · exact absurd (List.mem_map_of_mem h) (not_mem_unionRequests ht _)
    · exact absurd (List.mem_map_of_mem h) (not_mem_wrapperRequests ht _ _)

/-- The class of a type is called like the type, up to a number; that of a map entry, which asks
for none, exactly so. -/
theorem typeName_isVariant (role : ClassRole) (ht : role.isType) :
    IsVariant (role.declaredName f)
      (((Classes.of layout f).types.lookup role).getD (role.declaredName f)) := by
  cases h : (Classes.of layout f).types.lookup role with
  | none => exact Or.inl rfl
  | some x =>
    obtain ⟨before, after, he, -⟩ := List.lookup_eq_some_iff.mp h
    have hm : (role, x) ∈ (Classes.of layout f).types := by simp [he]
    obtain ⟨p, name, -, hrequest, hv⟩ := Classes.exists_request hm
    rwa [requestsIn_name ht hrequest] at hv

end Variants

section Graphs

variable {raws : List Descriptor.File} {g : Graph} {o : Options} {generate : List Nat}
  {t : TypeRef} {i j : Nat}

theorem around_outward (a : Allocation) (g : Graph) (i : Nat) (p : Option Nat) :
    a.around g i p = (a.file i).wrapperClass.toList ++
      ((g.file i).outward p).reverse.map fun j => (a.message ⟨i, j⟩).className := by
  cases p <;> rfl

theorem typeClass_path (a : Allocation) (g : Graph) (t : TypeRef) :
    (a.typeClass g t).path = a.around g (fileOf t) (g.parentOf t) ++ [a.className t] := by
  cases t <;> rfl

theorem protoTypeClass_path (a : Allocation) (g : Graph) (t : TypeRef) :
    (a.protoTypeClass g t).path = (a.file (fileOf t)).protoOuterClass.toList ++ g.typeNameOf t := by
  cases t <;> rfl

theorem className_isVariant (ht : g.Has t) :
    IsVariant (g.nameOf t) ((allocate o g generate).className t) := by
  cases t with
  | message id =>
    rw [Allocation.className, allocate_className ht.2]
    exact typeName_isVariant (.message id.index) rfl
  | enum id =>
    rw [Allocation.className, allocate_enumName ht.2]
    exact typeName_isVariant (.enum id.index) rfl

theorem fileOf_lt (ht : g.Has t) : fileOf t < g.files.length := by
  cases t <;> exact ht.1

variable (hg : Graph.build raws = .ok g)

include hg

theorem parentOf_lt (ht : g.Has t) :
    ∀ p ∈ g.parentOf t, p < (g.file (fileOf t)).messages.length := by
  intro p hp
  cases t with
  | message id => exact ((Graph.build_linked hg _).parent_lt _ _ hp).trans ht.2
  | enum id => exact (Graph.build_linked hg _).enum_parent_lt _ _ hp

theorem typeNameOf_eq (ht : g.Has t) :
    g.typeNameOf t = (g.file (fileOf t)).outerName (g.parentOf t) ++ [g.nameOf t] := by
  cases t with
  | message id => exact (Graph.build_typeName hg id.file).1 _ ht.2
  | enum id => exact (Graph.build_typeName hg id.file).2 _ ht.2

/-- The bean class of every type is nested like the type. -/
theorem allocate_nests (ht : g.Has t) : (allocate o g generate).Nests g o.layout t
    ((g.file (fileOf t)).outward (g.parentOf t)) := by
  have hl := Graph.build_linked hg (fileOf t)
  have hfits : ((allocate o g generate).file (fileOf t)).Fits o.layout (g.file (fileOf t)) :=
    allocate_fits hl (fileOf_lt ht)
  have hclimbs := (hl.climbs_iff (parentOf_lt hg ht)).mpr rfl
  have hpath := typeClass_path (allocate o g generate) g t
  rw [around_outward] at hpath
  have htype : g.typeNameOf t = (((g.file (fileOf t)).outward (g.parentOf t)).reverse.map
      fun i => (g.message ⟨fileOf t, i⟩).name) ++ [g.nameOf t] := by
    rw [typeNameOf_eq hg ht, hclimbs.outerName (Graph.build_typeName hg (fileOf t)).1]
    rfl
  constructor
  case wrapper => exact hfits.wrapperClass
  case path => exact hpath
  case length =>
    have hwrapper := hfits.wrapperClass
    rw [hpath, htype]
    cases hw : ((allocate o g generate).file (fileOf t)).wrapperClass <;>
      cases ho : o.layout <;> simp_all
  case parent =>
    intro p hp
    have hparent := typeClass_path (allocate o g generate) g (.message ⟨fileOf t, p⟩)
    rw [around_outward] at hparent
    rw [hpath, Option.mem_def.mp hp, hl.outward_some]
    change _ = ((allocate o g generate).typeClass g (.message ⟨fileOf t, p⟩)).path ++ _
    rw [hparent, List.reverse_cons, List.map_append, ← List.append_assoc]
    rfl
  case protoPath => exact protoTypeClass_path ..
  case typeName => exact htype
  case aligned =>
    rw [List.append_assoc] at hpath
    refine ⟨_, hpath, ?_⟩
    rw [htype]
    apply List.rel_append
    · rw [List.forall₂_map_left_iff, List.forall₂_map_right_iff, List.forall₂_same]
      intro i hi
      have hlt := hclimbs.lt i (List.mem_reverse.mp hi)
      exact className_isVariant (t := .message ⟨fileOf t, i⟩) ⟨fileOf_lt ht, hlt⟩
    · exact .cons (className_isVariant ht) .nil

/-- When the scope of a message is opened, what is around it has its names. -/
theorem allocate_scopes {id : MessageId} (hi : id.index < (g.file id.file).messages.length) :
    (allocate o g generate).Scopes (g.file id.file) (Classes.of o.layout (g.file id.file)) id
      ((g.file id.file).enclosing id.index) := by
  have hl := Graph.build_linked hg id.file
  have hle : ∀ j ∈ (g.file id.file).enclosing id.index, j ≤ id.index :=
    fun j hj => hl.le_of_encloses (hl.mem_enclosing_iff.mp hj)
  have hname : ∀ j ∈ (g.file id.file).enclosing id.index,
      ((allocate o g generate).message ⟨id.file, j⟩).className =
        messageName (g.file id.file) (Classes.of o.layout (g.file id.file)).types j :=
    fun j hj => allocate_className (Nat.lt_of_le_of_lt (hle j hj) hi)
  constructor
  case scope =>
    have hnames : ((g.file id.file).enclosing id.index).map (messageName (g.file id.file)
        ((Classes.of o.layout (g.file id.file)).typesBefore id.index)) =
          ((g.file id.file).enclosing id.index).map fun j =>
            ((allocate o g generate).message ⟨id.file, j⟩).className := by
      refine List.map_congr_left fun j hj => ?_
      rw [hname j hj, Classes.messageName_typesBefore hl (hle j hj)]
    rw [Classes.scopeOf_some hi, scopeRegistry, hnames]
  case claimed =>
    intro j hj he
    have hdeclared : (ClassRole.message j).Declared (g.file id.file) :=
      ⟨Nat.lt_of_le_of_lt (hle j hj) hi, he⟩
    have hlookup : (Classes.of o.layout (g.file id.file)).types.lookup (.message j) = some _ :=
      Classes.types_lookup hl rfl hdeclared fun _ => ClassRole.parent_lt hl hdeclared
    rw [Classes.lookup_typesBefore_eq hl (hle j hj), hname j hj, messageName, hlookup]
    rfl

/-- The layouts give all classes the same names and differ in the class around them. -/
theorem allocate_wraps (ht : g.Has t) : ∃ wrapper,
    (allocate { o with layout := .type } g generate).Wraps
      (allocate { o with layout := .file } g generate) g t wrapper := by
  have hl := Graph.build_linked hg (fileOf t)
  have hfits : ∀ l, ((allocate { o with layout := l } g generate).file (fileOf t)).Fits l
      (g.file (fileOf t)) := fun l => allocate_fits hl (fileOf_lt ht)
  obtain ⟨wrapper?, hfile⟩ := allocate_layout { o with layout := .type } .file g generate (fileOf t)
  obtain ⟨wrapper, rfl⟩ : ∃ wrapper, wrapper? = some wrapper := by
    rw [← Option.isSome_iff_exists]
    have hsome := (hfits .file).wrapperClass
    rwa [hfile] at hsome
  have hnone := Option.not_isSome_iff_eq_none.mp (ne_true_of_eq_false (hfits .type).wrapperClass)
  exact ⟨wrapper, .of_file hnone hfile⟩

/-- Bean classes are nested like the types they are made for. The loops that look for what is
around a type end, and what they read of names that are being given is final. In the two layouts
the names are the same, apart from the class that one of them puts around a file. -/
theorem allocate_nesting (o : Options) (generate : List Nat) (ht : g.Has t) :
    (∃ outer, (∀ is, (g.file (fileOf t)).Climbs (g.parentOf t) is ↔ is = outer) ∧
      (allocate o g generate).Nests g o.layout t outer) ∧
    (∀ id, t = .message id → ∃ chain,
      (∀ is, (g.file id.file).Climbs (some id.index) is ↔ is = chain) ∧
      (allocate o g generate).Scopes (g.file id.file) (Classes.of o.layout (g.file id.file)) id
        chain) ∧
    ∃ wrapper, (allocate { o with layout := .type } g generate).Wraps
      (allocate { o with layout := .file } g generate) g t wrapper := by
  have hl := Graph.build_linked hg
  refine ⟨⟨_, fun is => ?_, allocate_nests hg ht⟩, ?scopes, allocate_wraps hg ht⟩
  · exact (hl _).climbs_iff (parentOf_lt hg ht)
  · rintro id rfl
    refine ⟨_, fun is => ?_, allocate_scopes hg ht.2⟩
    exact (hl _).climbs_iff (by simpa using ht.2)

end Graphs

/-- A message in one of its own name, with an enum. -/
def grove : Descriptor.File where
  name := "grove.proto"
  package := "wood"
  messages := [{ name := "Tree", nested := [{ name := "Tree", enums := [{ name := "Leaf" }] }] }]

theorem allocate_nesting_grove :
    let o : Options := ⟨"bean", "bean.converter", .file, false⟩
    ∃ g outer, Graph.build [grove] = .ok g ∧ g.Has (.enum ⟨0, 0⟩) ∧
      (g.file 0).Climbs (some 1) outer ∧
      (allocate o g [0]).Nests g .file (.enum ⟨0, 0⟩) outer ∧
      ((allocate o g [0]).enumClass g ⟨0, 0⟩).path = ["GroveBeans", "Tree", "Tree1", "Leaf"] := by
  intro o
  let g := (Graph.build [grove]).toOption.getD default
  have hg : Graph.build [grove] = .ok g := rfl
  have ht : g.Has (.enum ⟨0, 0⟩) := ⟨by decide, by decide⟩
  obtain ⟨⟨outer, hclimbs, hnests⟩, -, -⟩ := allocate_nesting hg o [0] ht
  exact ⟨g, outer, hg, ht, (hclimbs outer).mpr rfl, hnests, by decide +kernel⟩

end Naming

end ProtoJava
