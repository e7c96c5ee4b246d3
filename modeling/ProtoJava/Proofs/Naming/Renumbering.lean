import ProtoJava.Naming.Allocate
import ProtoJava.Proofs.Naming.Allocated
import ProtoJava.Proofs.Schema.Renumbering

/-! # Names under renumbering

The names of a file follow from what it declares, its package and its converter class. They do not
tell its place in the graph.
-/

namespace ProtoJava.Naming

open Schema (File Graph MessageId EnumId)

section Core

variable (layout : Layout) (f : File)

theorem scopesFrom_core (types : ClassTable) (is : List Nat) :
    scopesFrom f.core types is = scopesFrom f types is := by
  induction is generalizing types with
  | nil => rfl
  | cons i is ih =>
    have hregistry : scopeRegistry f.core types i = scopeRegistry f types i := by
      rw [scopeRegistry, File.enclosing_core]
      rfl
    have hrequests : scopeRequests f.core i = scopeRequests f i := rfl
    rw [scopesFrom, scopesFrom, hregistry, hrequests, ih]

theorem classes_core : Classes.of layout f.core = Classes.of layout f := by
  have htop : topRequests layout f.core = topRequests layout f := rfl
  have hmessages : f.core.messages = f.messages := rfl
  rw [Classes.of, Classes.of, htop, hmessages, scopesFrom_core]

theorem fileNames_core (package converter : String) :
    fileNames layout f.core package converter = fileNames layout f package converter := by
  have hmessages : messageNames f.core = messageNames f := rfl
  have henums : enumNames f.core = enumNames f := rfl
  have hmethods : methodTable f.core = methodTable f := rfl
  rw [fileNames, fileNames, classes_core, hmessages, henums, hmethods]
  rfl

theorem packageRequest_core (o : Options) : packageRequest o f.core = packageRequest o f := by
  have hpackage : f.core.package = f.package := rfl
  have hname : f.core.baseName = f.baseName := rfl
  rw [packageRequest, packageRequest, hpackage, hname]

theorem converterRequest_core : converterRequest f.core = converterRequest f := by
  have hbase : converterBase f.core = converterBase f := rfl
  rw [converterRequest, converterRequest, hbase]

end Core

/-- Files have the same names in two allocations, under other numbers. -/
def Allocation.Renumbers (ρ : Nat → Nat) (a a' : Allocation) : Prop :=
  ∀ i, a'.file (ρ i) = a.file i

namespace Allocation.Renumbers

variable {ρ : Nat → Nat} {g g' : Graph} {a a' : Allocation} (h : a.Renumbers ρ a')

include h

theorem message (id : MessageId) : a'.message (id.renumber ρ) = a.message id :=
  congrArg (fun n : FileNames => n.messages.getD id.index default) (h id.file)

theorem enumNames (id : EnumId) : a'.enumNames (id.renumber ρ) = a.enumNames id :=
  congrArg (fun n : FileNames => n.enums.getD id.index default) (h id.file)

theorem protoClass (i : Nat) (typeName : List String) :
    a'.protoClass (ρ i) typeName = a.protoClass i typeName := by
  rw [Allocation.protoClass, h]
  rfl

theorem converterClass (package : String) (i : Nat) :
    a'.converterClass package (ρ i) = a.converterClass package i := by
  rw [Allocation.converterClass, h]
  rfl

variable (hg : g.Renumbers ρ g')

include hg

theorem around (i : Nat) (parent : Option Nat) :
    a'.around g' (ρ i) parent = a.around g i parent := by
  have hmessage : ∀ j, a'.message ⟨ρ i, j⟩ = a.message ⟨i, j⟩ := fun j => h.message ⟨i, j⟩
  simp only [Allocation.around, h i, hg.enclosing, hmessage]

theorem messageClass (id : MessageId) :
    a'.messageClass g' (id.renumber ρ) = a.messageClass g id := by
  have hfile : (id.renumber ρ).file = ρ id.file := rfl
  rw [Allocation.messageClass, h.message, hg.message, hfile, h, around h hg]
  rfl

theorem enumClass (id : EnumId) : a'.enumClass g' (id.renumber ρ) = a.enumClass g id := by
  have hfile : (id.renumber ρ).file = ρ id.file := rfl
  rw [Allocation.enumClass, h.enumNames, hg.enumType, hfile, h, around h hg]
  rfl

theorem protoMessageClass (id : MessageId) :
    a'.protoMessageClass g' (id.renumber ρ) = a.protoMessageClass g id := by
  rw [Allocation.protoMessageClass, hg.message]
  exact h.protoClass id.file _

theorem protoEnumClass (id : EnumId) :
    a'.protoEnumClass g' (id.renumber ρ) = a.protoEnumClass g id := by
  rw [Allocation.protoEnumClass, hg.enumType]
  exact h.protoClass id.file _

end Allocation.Renumbers

section Granting

variable {ρ : Nat → Nat} {g g' : Graph} (hg : g.Renumbers ρ g') (o : Options)

include hg

theorem grantedFiles_renumber (order : List Nat) :
    grantedFiles o g' (order.map ρ) = (grantedFiles o g order).map fun e => (ρ e.1, e.2) := by
  have hpackage : ∀ i, packageRequest o (g'.file (ρ i)) = packageRequest o (g.file i) :=
    hg.of_core (packageRequest o) fun f => packageRequest_core f o
  have hconverter : ∀ i, converterRequest (g'.file (ρ i)) = converterRequest (g.file i) :=
    hg.of_core converterRequest converterRequest_core
  simp only [grantedFiles, List.map_map, Function.comp_def, hpackage, hconverter,
    List.zip_map_left]
  rfl

/-- A file keeps its names where others are planned after it. -/
theorem allocate_renumber (hlt : ∀ i, ρ i < g'.files.length ↔ i < g.files.length)
    {generate rest : List Nat}
    (horder : planningOrder g' (generate.map ρ) = (planningOrder g generate).map ρ ++ rest)
    (hrest : ∀ i < g.files.length, ρ i ∉ rest) :
    (allocate o g generate).Renumbers ρ (allocate o g' (generate.map ρ)) := by
  obtain ⟨more, hmore, hgranted⟩ :=
    grantedFiles_append o g' ((planningOrder g generate).map ρ) rest
  rw [grantedFiles_renumber hg] at hgranted
  intro i
  by_cases hi : i < g.files.length
  · have hnone : more.reverse.lookup (ρ i) = none := by
      refine lookup_eq_none ?_
      rw [List.map_reverse, List.mem_reverse, hmore]
      exact hrest i hi
    have hlookup : (grantedFiles o g' (planningOrder g' (generate.map ρ))).reverse.lookup (ρ i) =
        (grantedFiles o g (planningOrder g generate)).reverse.lookup i := by
      rw [horder, hgranted, List.reverse_append, List.lookup_append, hnone, Option.none_or,
        ← List.map_reverse, lookup_map hg.injective]
    have hnames : ∀ package converter, fileNames o.layout (g'.file (ρ i)) package converter =
        fileNames o.layout (g.file i) package converter :=
      fun package converter => hg.of_core (fileNames o.layout · package converter)
        (fun f => fileNames_core o.layout f package converter) i
    have hi' := (hlt i).mpr hi
    simp only [Allocation.file, allocate, List.getD_eq_getElem?_getD, List.getElem?_map,
      List.getElem?_range hi, List.getElem?_range hi', Option.map_some, Option.getD_some, hlookup,
      hnames]
  · have hi' : ¬ ρ i < g'.files.length := fun h => hi ((hlt i).mp h)
    simp [Allocation.file, allocate, Nat.le_of_not_lt hi, Nat.le_of_not_lt hi']

end Granting

end ProtoJava.Naming
