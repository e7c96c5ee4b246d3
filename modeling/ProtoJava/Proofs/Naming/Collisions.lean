import Mathlib.Data.List.Infix
import ProtoJava.Proofs.Naming.Allocated

/-! # Freedom from collisions

In the allocation for a built graph no two things that share a scope have one name: packages and
converter classes over the whole run, the bean classes of all types, the classes in one message,
the members of one class, and the constants of one enum.
-/

namespace ProtoJava

/-- A type of a graph that is no map entry and is inside none. -/
def Schema.Graph.Shows (g : Schema.Graph) : Schema.TypeRef → Prop
  | .message id => (g.file id.file).Shown id.index
  | .enum id => id.index < (g.file id.file).enums.length ∧
    ∀ p ∈ (g.enumType id).parent, (g.file id.file).Shown p

namespace Naming

open Schema (File Message Field Oneof Graph TypeRef MessageId EnumId)

namespace Allocation

/-- The bean class of a type. -/
def typeClass (a : Allocation) (g : Graph) : TypeRef → Java.ClassName
  | .message id => a.messageClass g id
  | .enum id => a.enumClass g id

/-- The names of the classes in the class of a message: its types, and those of its unions. -/
def innerNames (a : Allocation) (g : Graph) (id : MessageId) : List String :=
  let m := g.message id
  ((m.nested.filter fun i => !(g.message ⟨id.file, i⟩).mapEntry).map fun i =>
      (a.message ⟨id.file, i⟩).className) ++
    (m.enums.map fun i => (a.enumNames ⟨id.file, i⟩).className) ++
    (a.message id).unions.reduceOption.flatMap fun u =>
      u.iface :: u.caseEnum :: u.variants.map (·.wrapper)

/-- The names of the classes of a file that are in no message. -/
def topNames (a : Allocation) (g : Graph) (i : Nat) : List String :=
  let f := g.file i
  ((f.topMessages.filter fun j => !(f.message j).mapEntry).map fun j =>
      (a.message ⟨i, j⟩).className) ++
    (f.topEnums.map fun j => (a.enumNames ⟨i, j⟩).className) ++
    (a.file i).extensionsClass.toList ++ (a.file i).wrapperClass.toList

/-- Things that share a scope have different names. -/
structure CollisionFree (a : Allocation) (g : Graph) : Prop where
  packages : ∀ i < g.files.length, ∀ j < g.files.length,
    (a.file i).beanPackage = (a.file j).beanPackage → i = j
  converters : ∀ i < g.files.length, ∀ j < g.files.length,
    (a.file i).converterClass = (a.file j).converterClass → i = j
  types : ∀ t t', g.Shows t → g.Shows t' → a.typeClass g t = a.typeClass g t' → t = t'
  top : ∀ i < g.files.length, Distinct [] (a.topNames g i)
  inner : ∀ id : MessageId, id.index < (g.file id.file).messages.length →
    Distinct [] (a.innerNames g id) ∧ ∀ j, (g.file id.file).Encloses j id.index →
      (a.message ⟨id.file, j⟩).className ∉ a.innerNames g id
  members : ∀ id : MessageId, id.index < (g.file id.file).messages.length →
    Distinct objectMethods ((a.message id).identifiers (g.message id))
  cases : ∀ id : MessageId, id.index < (g.file id.file).messages.length →
    ∀ u, some u ∈ (a.message id).unions → Distinct enumMembers u.constants
  constants : ∀ id : EnumId, id.index < (g.file id.file).enums.length →
    Distinct enumMembers (a.enumNames id).constants
  extensions : ∀ i < g.files.length,
    Distinct [] ((a.file i).extensions.flatMap fun x => [x.numberConst, x.extendeeConst])
  methods : ∀ i < g.files.length, Distinct objectMethods
    ((a.file i).messages.flatMap fun n => [n.converter.decode, n.converter.encode,
      n.converter.bytes])

end Allocation

section Inner

variable {f : File} {i : Nat}

/-- The roles of the classes in a message. -/
def innerRoles (f : File) (i : Nat) : List ClassRole :=
  let m := f.message i
  (m.nested.filter fun j => !(f.message j).mapEntry).map .message ++ m.enums.map .enum ++
    (m.oneofs.filter (!·.synthetic)).flatMap fun o =>
      [.iface o.index, .caseEnum o.index] ++
        (unionMembers m o).flatMap fun f => [.variant f.index]

/-- Every class in a message is asked for in its scope. -/
theorem mem_scopeRequests (hm : (f.message i).Numbered) {role : ClassRole}
    (h : role ∈ innerRoles f i) : role ∈ (scopeRequests f i).map (·.1) := by
  simp only [innerRoles, List.mem_append, List.mem_map, List.mem_filter, List.mem_flatMap] at h
  simp only [scopeRequests, List.map_append, List.mem_append, mem_messageRequests_iff,
    mem_enumRequests_iff, List.map_flatMap, List.mem_flatMap]
  rcases h with (⟨j, ⟨hj, he⟩, rfl⟩ | ⟨j, hj, rfl⟩) | ⟨o, ⟨ho, hs⟩, h | ⟨field, hf, h⟩⟩
  · exact Or.inl (Or.inl (Or.inl ⟨j, hj, by simpa using he, rfl⟩))
  · exact Or.inl (Or.inl (Or.inr ⟨j, hj, rfl⟩))
  · refine Or.inl (Or.inr ⟨o, ho, ?_⟩)
    simpa [unionRequests, show o.synthetic = false by simpa using hs] using h
  · obtain ⟨hmem, hu⟩ := (mem_unionMembers_iff hm ho).mp hf
    refine Or.inr ⟨field, hmem, ?_⟩
    simpa [wrapperRequest, hu] using h

theorem innerRoles_nodup (hl : f.Linked) (hi : i < f.messages.length) :
    (innerRoles f i).Nodup := by
  have hm := hl.message_numbered hi
  have ho : (f.message i).oneofs.Nodup := List.Nodup.of_map _ (hm.oneofs ▸ List.nodup_range)
  refine List.Nodup.append (List.Nodup.append ?messages ?enums ?d) ?unions ?d'
  case messages =>
    rw [hl.nested i hi]
    exact ((Schema.childrenOf_nodup _ _).filter _).map fun _ _ => ClassRole.message.inj
  case enums =>
    rw [hl.enums i hi]
    exact (Schema.childrenOf_nodup _ _).map fun _ _ => ClassRole.enum.inj
  case unions =>
    exact unionRoles_nodup hm (fun o => [ClassRole.iface o, .caseEnum o])
      (fun f => [.variant f]) (List.filter_subset_self _) (ho.filter _)
      (by simp) (by simp) (by simp) (by simp) (by simp)
  all_goals
    simp only [List.disjoint_left, List.mem_append, List.mem_map, List.mem_flatMap]
    intro role h h'
    aesop

/-- The names of the classes in a message are distinct, not reserved, and not those of the
classes around them. -/
theorem innerRoles_distinct (layout : Layout) (hl : f.Linked) (hi : i < f.messages.length) :
    Distinct ((f.enclosing i).map (messageName f (Classes.of layout f).types))
      ((innerRoles f i).map (nameFor ((Classes.of layout f).scopeOf (some i)))) := by
  have hn : (f.enclosing i).map (messageName f (Classes.of layout f).types) =
      (f.enclosing i).map (messageName f ((Classes.of layout f).typesBefore i)) := by
    refine List.map_congr_left fun j hj => ?_
    have hle := hl.le_of_encloses (hl.mem_enclosing_iff.mp hj)
    exact (Classes.messageName_typesBefore hl hle).symm
  rw [hn, Classes.scopeOf_some hi]
  exact nameFor_distinct (innerRoles_nodup hl hi)
    (fun _ => mem_scopeRequests (hl.message_numbered hi)) rfl

end Inner

theorem topRequests_nodup (layout : Layout) (f : File) :
    ((topRequests layout f).map (·.1)).Nodup := by
  simp only [topRequests, List.map_append]
  refine List.Nodup.append (List.Nodup.append (List.Nodup.append ?messages ?enums ?d)
    ?extensions ?dx) ?wrapper ?dw
  case messages =>
    rw [messageRequests, List.map_map]
    exact (f.topMessages_nodup.filter _).map fun _ _ => ClassRole.message.inj
  case enums =>
    rw [enumRequests, List.map_map]
    exact f.topEnums_nodup.map fun _ _ => ClassRole.enum.inj
  case extensions => split <;> simp
  case wrapper => cases layout <;> simp
  all_goals
    simp only [List.disjoint_left, List.mem_append, mem_messageRequests_iff, mem_enumRequests_iff]
    intro role h h'
    cases layout <;> aesop

/-- The file of a type. -/
def fileOf : TypeRef → Nat
  | .message id => id.file
  | .enum id => id.file

/-- What the class of a type is generated for. -/
def roleOf : TypeRef → ClassRole
  | .message id => .message id.index
  | .enum id => .enum id.index

section Types

variable {o : Options} {g : Graph} {generate : List Nat} {i : Nat} {t t' : TypeRef}

theorem declared_of_shows (h : g.Shows t) : (roleOf t).Declared (g.file (fileOf t)) := by
  cases t with
  | message id => exact declared_of_shown h
  | enum id => exact h.1

theorem shown_of_shows (h : g.Shows t) :
    ∀ p ∈ (roleOf t).parent (g.file (fileOf t)), (g.file (fileOf t)).Shown p := by
  cases t with
  | message id => exact fun p hp => Schema.File.Shown.parent h hp
  | enum id => exact h.2

theorem around_eq (hl : (g.file i).Linked) {p : Option Nat}
    (hp : ∀ j ∈ p, j < (g.file i).messages.length) :
    (allocate o g generate).around g i p =
      ((allocate o g generate).file i).wrapperClass.toList ++
        (namesAround o.layout (g.file i) p).reverse := by
  cases p with
  | none => rfl
  | some p =>
    rw [Allocation.around, namesAround, ← List.map_reverse]
    refine congrArg _ (List.map_congr_left fun j hj => ?_)
    have hle := hl.le_of_encloses (hl.mem_enclosing_iff.mp (List.mem_reverse.mp hj))
    have hj : j < (g.file i).messages.length := Nat.lt_of_le_of_lt hle (hp p rfl)
    exact allocate_className hj

/-- The class of a type is made of the names of the classes around it and its own. -/
theorem typeClass_eq (hl : (g.file (fileOf t)).Linked) (h : g.Shows t) :
    (allocate o g generate).typeClass g t =
      ⟨((allocate o g generate).file (fileOf t)).beanPackage,
        ((allocate o g generate).file (fileOf t)).wrapperClass.toList ++
          (namesAround o.layout (g.file (fileOf t)) ((roleOf t).parent (g.file (fileOf t)))).reverse
          ++ [typeName (g.file (fileOf t)) (Classes.of o.layout (g.file (fileOf t))).types
            (roleOf t)]⟩ := by
  rw [← around_eq hl fun p hp => (shown_of_shows h p hp).lt]
  cases t with
  | message id =>
    simp only [Allocation.typeClass, Allocation.messageClass,
      allocate_className (Schema.File.Shown.lt h)]
    rfl
  | enum id =>
    simp only [Allocation.typeClass, Allocation.enumClass, allocate_enumName h.1]
    rfl

theorem eq_of_roleOf (hf : fileOf t = fileOf t') (hr : roleOf t = roleOf t') : t = t' := by
  rcases t with ⟨⟨_, _⟩⟩ | ⟨⟨_, _⟩⟩ <;> rcases t' with ⟨⟨_, _⟩⟩ | ⟨⟨_, _⟩⟩ <;>
    simp_all [fileOf, roleOf]

theorem file_lt_of_shows (h : g.Shows t) : fileOf t < g.files.length := by
  cases t with
  | message id => exact file_lt (Or.inl (Schema.File.Shown.lt h))
  | enum id => exact file_lt (Or.inr h.1)

end Types

section Allocate

variable {o : Options} {g : Graph} {generate : List Nat} {i j : Nat}

theorem allocate_packages (hi : i < g.files.length) (hj : j < g.files.length)
    (h : ((allocate o g generate).file i).beanPackage =
      ((allocate o g generate).file j).beanPackage) : i = j := by
  obtain ⟨package, _, hm, hf⟩ := allocate_file o generate hi
  obtain ⟨package', _, hm', hf'⟩ := allocate_file o generate hj
  rw [hf, hf'] at h
  obtain rfl : package = package' := h
  exact eq_of_package_eq hm hm'

theorem allocate_converters (hi : i < g.files.length) (hj : j < g.files.length)
    (h : ((allocate o g generate).file i).converterClass =
      ((allocate o g generate).file j).converterClass) : i = j := by
  obtain ⟨_, converter, hm, hf⟩ := allocate_file o generate hi
  obtain ⟨_, converter', hm', hf'⟩ := allocate_file o generate hj
  rw [hf, hf'] at h
  obtain rfl : converter = converter' := h
  exact eq_of_converter_eq hm hm'

/-- No two types have the same bean class. -/
theorem allocate_types (hl : ∀ i, (g.file i).Linked) {t t' : TypeRef} (ht : g.Shows t)
    (ht' : g.Shows t')
    (h : (allocate o g generate).typeClass g t = (allocate o g generate).typeClass g t') :
    t = t' := by
  rw [typeClass_eq (hl _) ht, typeClass_eq (hl _) ht'] at h
  obtain ⟨hpackage, hpath⟩ := Java.ClassName.mk.inj h
  have hf : fileOf t = fileOf t' :=
    allocate_packages (file_lt_of_shows ht) (file_lt_of_shows ht') hpackage
  refine eq_of_roleOf hf ?_
  have hd := declared_of_shows ht
  have hs := shown_of_shows ht
  rw [hf] at hpath hd hs
  obtain ⟨houter, hname⟩ := List.append_inj' hpath rfl
  have haround := List.reverse_inj.mp (List.append_cancel_left houter)
  have hparent := namesAround_injective (hl _) hs (shown_of_shows ht') haround
  exact eq_of_typeName_eq (hl _) hd (declared_of_shows ht') hparent (List.cons.inj hname).1

theorem unions_typeNames (m : Message) (scope : ClassTable) (table : MemberTable)
    (os : List Oneof) :
    ((os.map (unionNames m scope table)).reduceOption.flatMap fun u =>
      u.iface :: u.caseEnum :: u.variants.map (·.wrapper)) =
    ((os.filter (!·.synthetic)).flatMap fun o => [.iface o.index, .caseEnum o.index] ++
      (unionMembers m o).flatMap fun f => [.variant f.index]).map (nameFor scope) := by
  induction os with
  | nil => rfl
  | cons o os ih =>
    by_cases hs : o.synthetic
    · simpa [unionNames, hs] using ih
    · simpa [unionNames, hs, List.map_flatMap, ← List.map_eq_flatMap,
        Function.comp_def] using ih

theorem innerNames_eq {id : MessageId} (hl : (g.file id.file).Linked)
    (hi : id.index < (g.file id.file).messages.length) :
    (allocate o g generate).innerNames g id = (innerRoles (g.file id.file) id.index).map
      (nameFor ((Classes.of o.layout (g.file id.file)).scopeOf (some id.index))) := by
  have hmessages : ∀ i ∈ (g.message id).nested, (g.message ⟨id.file, i⟩).mapEntry = false →
      ((allocate o g generate).message ⟨id.file, i⟩).className =
        nameFor ((Classes.of o.layout (g.file id.file)).scopeOf (some id.index)) (.message i) := by
    intro i hm he
    obtain ⟨hlt, hp⟩ := (hl.mem_nested_iff hi).mp hm
    rw [allocate_className (show (⟨id.file, i⟩ : MessageId).index < _ from hlt), ← hp]
    exact messageName_eq_nameFor o.layout hl hlt he
  have henums : ∀ i ∈ (g.message id).enums,
      ((allocate o g generate).enumNames ⟨id.file, i⟩).className =
        nameFor ((Classes.of o.layout (g.file id.file)).scopeOf (some id.index)) (.enum i) := by
    intro i hm
    obtain ⟨hlt, hp⟩ := (hl.mem_enums_iff hi).mp hm
    rw [allocate_enumName (show (⟨id.file, i⟩ : EnumId).index < _ from hlt), ← hp]
    exact enumName_eq_nameFor o.layout hl hlt
  simp only [Allocation.innerNames, innerRoles, List.map_append, allocate_message hi,
    List.map_map]
  congr 1
  · congr 1
    · refine List.map_congr_left fun i hm => ?_
      obtain ⟨hm, he⟩ := List.mem_filter.mp hm
      exact hmessages i hm (by simpa using he)
    · exact List.map_congr_left henums
  · exact unions_typeNames _ _ _ _

theorem innerNames_nodup {id : MessageId} (hl : (g.file id.file).Linked)
    (hi : id.index < (g.file id.file).messages.length) :
    ((allocate o g generate).innerNames g id).Nodup := by
  rw [innerNames_eq hl hi]
  exact (innerRoles_distinct o.layout hl hi).1

theorem lookup_top_toList {layout : Layout} {f : File} {role : ClassRole} :
    ((Classes.of layout f).top.lookup role).toList =
      if role ∈ (topRequests layout f).map (·.1) then
        [nameFor (Classes.of layout f).top role] else [] := by
  rw [← Classes.top_roles]
  split
  · next h => rw [(lookup_eq_some_nameFor h).1, Option.toList_some]
  · next h => rw [lookup_eq_none h, Option.toList_none]

theorem topNames_eq (hl : (g.file i).Linked) (hi : i < g.files.length) :
    (allocate o g generate).topNames g i =
      ((topRequests o.layout (g.file i)).map (·.1)).map
        (nameFor (Classes.of o.layout (g.file i)).top) := by
  have hmessages : ∀ j ∈ (g.file i).topMessages, ((g.file i).message j).mapEntry = false →
      ((allocate o g generate).message ⟨i, j⟩).className =
        nameFor (Classes.of o.layout (g.file i)).top (.message j) := by
    intro j hm he
    obtain ⟨hlt, hp⟩ := File.mem_topMessages_iff.mp hm
    have hn := messageName_eq_nameFor o.layout hl hlt he
    rw [hp] at hn
    exact (allocate_className (show (⟨i, j⟩ : MessageId).index < _ from hlt)).trans hn
  have henums : ∀ j ∈ (g.file i).topEnums,
      ((allocate o g generate).enumNames ⟨i, j⟩).className =
        nameFor (Classes.of o.layout (g.file i)).top (.enum j) := by
    intro j hm
    obtain ⟨hlt, hp⟩ := File.mem_topEnums_iff.mp hm
    have hn := enumName_eq_nameFor o.layout hl hlt
    rw [hp] at hn
    exact (allocate_enumName (show (⟨i, j⟩ : EnumId).index < _ from hlt)).trans hn
  obtain ⟨_, _, -, hf⟩ := allocate_file o generate hi
  simp only [Allocation.topNames, hf, fileNames, lookup_top_toList]
  simp only [topRequests, messageRequests, enumRequests, List.map_append, List.map_map]
  refine congrArg₂ _ (congrArg₂ _ (congrArg₂ _ ?messages ?enums) ?extensions) ?wrapper
  case messages =>
    refine List.map_congr_left fun j hm => ?_
    obtain ⟨hm, he⟩ := List.mem_filter.mp hm
    rw [Function.comp_apply, Function.comp_apply]
    exact hmessages j hm (by simpa using he)
  case enums =>
    refine List.map_congr_left fun j hm => ?_
    rw [Function.comp_apply, Function.comp_apply]
    exact henums j hm
  case extensions =>
    by_cases he : (g.file i).extensions.isEmpty <;> cases o.layout <;> simp [he]
  case wrapper =>
    by_cases he : (g.file i).extensions.isEmpty <;> cases o.layout <;> simp [he]

theorem topNames_distinct (hl : (g.file i).Linked) (hi : i < g.files.length) :
    Distinct [] ((allocate o g generate).topNames g i) :=
  nameFor_distinct (topRequests_nodup o.layout (g.file i)) (fun _ h => h) (topNames_eq hl hi)

theorem methods_distinct (f : File) (classes : Classes) :
    Distinct objectMethods ((((List.range f.messages.length).map
      (messageNames f classes (methodTable f))).flatMap fun n =>
        [n.converter.decode, n.converter.encode, n.converter.bytes])) := by
  let roles := (List.range f.messages.length).flatMap fun i =>
    [ConverterRole.decode i, .encode i, .bytes i]
  have hd : roles.Nodup :=
    roles_nodup (fun i => [ConverterRole.decode i, .encode i, .bytes i])
      (List.map_id _ ▸ List.nodup_range) (by simp) (by simp)
  have hr : ∀ role ∈ roles, role ∈ (methodRequests f).map (·.1) := by
    intro role h
    obtain ⟨i, hi, h⟩ := List.mem_flatMap.mp h
    rw [methodRequests, List.map_flatMap, List.mem_flatMap]
    refine ⟨(f.messages.get ⟨i, List.mem_range.mp hi⟩, i), ?_, by simpa using h⟩
    rw [List.mem_zipIdx_iff_getElem?]
    exact List.getElem?_eq_getElem (List.mem_range.mp hi)
  refine nameFor_distinct hd hr ?_
  simp [roles, messageNames, methodTable, List.flatMap_map, List.map_flatMap]

theorem claimAll_distinct (others names : List String) :
    Distinct others ((Registry.reserving.reserve others).claimAll names).1 := by
  refine ⟨Registry.claimAll_nodup .., fun x hx => ?_⟩
  simpa [contains_reserving] using Registry.claimAll_fresh hx

theorem extensions_distinct {extensions : List Field} {names : List ExtensionNames}
    (hd : extensions.map (·.index) = List.range extensions.length)
    (hn : names =
      extensionNames (Registry.reserving.grant (extensionRequests extensions)).1 extensions) :
    Distinct [] (names.flatMap fun x => [x.numberConst, x.extendeeConst]) := by
  let roles := extensions.flatMap fun x =>
    [MemberRole.extensionNumber x.index, .extensionExtendee x.index]
  have hx : (extensions.map (·.index)).Nodup := hd ▸ List.nodup_range
  have hnodup : roles.Nodup :=
    roles_nodup (fun x => [MemberRole.extensionNumber x, .extensionExtendee x]) hx
      (by simp) (by simp)
  have hr : ∀ role ∈ roles, role ∈ (extensionRequests extensions).map (·.1) := by
    simp [roles, extensionRequests, List.map_flatMap]
  refine nameFor_distinct hnodup hr ?_
  subst hn
  simp [roles, extensionNames, List.flatMap_map, List.map_flatMap, Registry.reserve]

end Allocate

/-- The allocation for a built graph is free of collisions. -/
theorem allocate_collisionFree {raws : List Descriptor.File} {g : Graph}
    (h : Graph.build raws = .ok g) (o : Options) (generate : List Nat) :
    (allocate o g generate).CollisionFree g := by
  have hl := Graph.build_linked h
  constructor
  case packages => exact fun i hi j hj => allocate_packages hi hj
  case converters => exact fun i hi j hj => allocate_converters hi hj
  case types => exact fun t t' => allocate_types hl
  case top => exact fun i hi => topNames_distinct (hl i) hi
  case inner =>
    intro id hi
    have hd := innerRoles_distinct o.layout (hl id.file) hi
    rw [innerNames_eq (hl id.file) hi]
    refine ⟨⟨hd.1, fun x hx => ⟨List.not_mem_nil, (hd.2 x hx).2⟩⟩, fun j hj hx => ?_⟩
    have hlt : j < (g.file id.file).messages.length :=
      Nat.lt_of_le_of_lt ((hl id.file).le_of_encloses hj) hi
    rw [allocate_className (show (⟨id.file, j⟩ : MessageId).index < _ from hlt)] at hx
    exact (hd.2 _ hx).1 (List.mem_map_of_mem ((hl id.file).mem_enclosing_iff.mpr hj))
  case members =>
    intro id hi
    rw [allocate_message hi]
    exact identifiers_distinct rfl rfl rfl ((hl id.file).message_numbered hi)
  case cases =>
    intro id hi u hu
    rw [allocate_message hi] at hu
    obtain ⟨o, -, hu⟩ := List.mem_map.mp hu
    exact constants_distinct ((hl id.file).message_numbered hi) hu
  case constants =>
    intro id hi
    rw [allocate_enumNames hi]
    exact claimAll_distinct _ _
  case extensions =>
    intro i hi
    obtain ⟨_, _, -, hf⟩ := allocate_file o generate hi
    exact extensions_distinct (hl i).extensions (hf ▸ rfl)
  case methods =>
    intro i hi
    obtain ⟨_, _, -, hf⟩ := allocate_file o generate hi
    rw [hf]
    exact methods_distinct _ _

/-- A file with a nest of messages of one name and a union, which ask for taken names. -/
def clashing : Descriptor.File where
  name := "shop/item.proto"
  package := "shop"
  messages := [{
    name := "Item"
    fields := [
      { name := "kind_case", number := 1, type := 9 },
      { name := "item", number := 2, type := 9, oneofIndex := some 0, defaultValue := some "x" },
      { name := "item1", number := 3, type := 5, oneofIndex := some 0 }]
    nested := [{ name := "Item" }, { name := "Item1", nested := [{ name := "Item" }] }]
    enums := [{
      name := "Kind"
      values := [{ name := "values" }, { name := "values1", number := 1 }] }]
    oneofs := ["kind"] }]

theorem allocate_collisionFree_clashing :
    ∃ g, Graph.build [clashing, { clashing with name := "b.proto" }] = .ok g ∧
      (allocate ⟨"bean", "conv", .file, false⟩ g [1, 0]).CollisionFree g := by
  have h : (Graph.build [clashing, { clashing with name := "b.proto" }]).isOk := rfl
  obtain ⟨g, hg⟩ := exists_eq_ok h
  exact ⟨g, hg, allocate_collisionFree hg _ _⟩

end Naming

end ProtoJava
