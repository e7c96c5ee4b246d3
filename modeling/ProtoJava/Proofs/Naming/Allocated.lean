import ProtoJava.Naming.Allocate
import ProtoJava.Proofs.Naming.Members
import ProtoJava.Proofs.Naming.Scopes

/-! # Allocated names

The plan of every file of a graph has an entry for each of its declarations. The plans in the two
layouts differ in the wrapper only.
-/

namespace ProtoJava.Naming

open Schema (File Message Field Oneof Graph MessageId EnumId)

section Files

variable {o : Options} {g : Graph} {order generate : List Nat} {i j : Nat}
  {package package' converter converter' : String}

theorem mem_planningOrder (hi : i < g.files.length) : i ∈ planningOrder g generate := by
  by_cases h : i ∈ generate <;> simp [planningOrder, h, hi]

theorem grantedFiles_names (o : Options) (g : Graph) (order : List Nat) :
    (grantedFiles o g order).map (·.2) =
      (Registry.empty.claimAll (order.map fun i => packageRequest o (g.file i))).1.zip
        (Registry.reserving.claimAll (order.map fun i => converterRequest (g.file i))).1 := by
  rw [grantedFiles, List.map_snd_zip]
  simp [Registry.claimAll_length]

theorem grantedFiles_packages : (grantedFiles o g order).map (·.2.1) =
    (Registry.empty.claimAll (order.map fun i => packageRequest o (g.file i))).1 := by
  have h := congrArg (List.map Prod.fst) (grantedFiles_names o g order)
  rwa [List.map_map, List.map_fst_zip (by simp [Registry.claimAll_length])] at h

theorem grantedFiles_converters : (grantedFiles o g order).map (·.2.2) =
    (Registry.reserving.claimAll (order.map fun i => converterRequest (g.file i))).1 := by
  have h := congrArg (List.map Prod.snd) (grantedFiles_names o g order)
  rwa [List.map_map, List.map_snd_zip (by simp [Registry.claimAll_length])] at h

theorem grantedFiles_keys (o : Options) (g : Graph) (order : List Nat) :
    (grantedFiles o g order).map (·.1) = order :=
  List.map_fst_zip (by simp [Registry.claimAll_length])

/-- What files are given does not depend on those that ask after them. -/
theorem grantedFiles_append (o : Options) (g : Graph) (order rest : List Nat) :
    ∃ more : List (Nat × String × String), more.map (·.1) = rest ∧
      grantedFiles o g (order ++ rest) = grantedFiles o g order ++ more := by
  refine ⟨rest.zip (List.zip ?packages ?converters), ?keys, ?granted⟩
  case granted =>
    simp only [grantedFiles, List.map_append, Registry.claimAll_append]
    rw [List.zip_append (by simp [Registry.claimAll_length]),
      List.zip_append (by simp [Registry.claimAll_length])]
  case keys => exact List.map_fst_zip (by simp [Registry.claimAll_length])

/-- No package is given to two files. -/
theorem eq_of_package_eq (h : (i, package, converter) ∈ grantedFiles o g order)
    (h' : (j, package, converter') ∈ grantedFiles o g order) : i = j := by
  have hd : ((grantedFiles o g order).map (·.2.1)).Nodup :=
    grantedFiles_packages ▸ Registry.claimAll_nodup ..
  exact congrArg Prod.fst (List.inj_on_of_nodup_map hd h h' rfl)

/-- No converter class is given to two files. -/
theorem eq_of_converter_eq (h : (i, package, converter) ∈ grantedFiles o g order)
    (h' : (j, package', converter) ∈ grantedFiles o g order) : i = j := by
  have hd : ((grantedFiles o g order).map (·.2.2)).Nodup :=
    grantedFiles_converters ▸ Registry.claimAll_nodup ..
  exact congrArg Prod.fst (List.inj_on_of_nodup_map hd h h' rfl)

/-- What a file is given stands where it asks for it. -/
theorem exists_getElem?_of_granted (h : (i, package, converter) ∈ grantedFiles o g order) :
    ∃ k : Nat, order[k]? = some i ∧
      (Registry.empty.claimAll (order.map fun i => packageRequest o (g.file i))).1[k]? =
        some package ∧
      (Registry.reserving.claimAll (order.map fun i => converterRequest (g.file i))).1[k]? =
        some converter := by
  obtain ⟨k, hk⟩ := List.mem_iff_getElem?.mp h
  obtain ⟨hi, hgiven⟩ := List.getElem?_zip_eq_some.mp hk
  exact ⟨k, hi, List.getElem?_zip_eq_some.mp hgiven⟩

/-- A file is given a variant of the package that it asks for. -/
theorem package_isVariant (h : (i, package, converter) ∈ grantedFiles o g order) :
    IsVariant (packageRequest o (g.file i)) package := by
  obtain ⟨k, hi, hpackage, -⟩ := exists_getElem?_of_granted h
  refine Registry.empty.claimAll_getElem?_isVariant ?_ hpackage
  rw [List.getElem?_map, hi, Option.map_some]

/-- A file is given a variant of the converter class that it asks for. -/
theorem converter_isVariant (h : (i, package, converter) ∈ grantedFiles o g order) :
    IsVariant (converterRequest (g.file i)) converter := by
  obtain ⟨k, hi, -, hconverter⟩ := exists_getElem?_of_granted h
  refine Registry.reserving.claimAll_getElem?_isVariant ?_ hconverter
  rw [List.getElem?_map, hi, Option.map_some]

/-- Every file is planned with a package and a converter class that it was given. -/
theorem allocate_file (o : Options) (generate : List Nat) (hi : i < g.files.length) :
    ∃ package converter, (i, package, converter) ∈
        grantedFiles o g (planningOrder g generate) ∧
      (allocate o g generate).file i = fileNames o.layout (g.file i) package converter := by
  let granted := (grantedFiles o g (planningOrder g generate)).reverse
  have hm : i ∈ granted.map (·.1) := by
    rw [List.map_reverse, List.mem_reverse, grantedFiles_keys]
    exact mem_planningOrder hi
  have hs : (granted.lookup i).isSome := by simpa using hm
  obtain ⟨⟨package, converter⟩, hl⟩ := Option.isSome_iff_exists.mp hs
  refine ⟨package, converter, ?_, ?_⟩
  · obtain ⟨before, after, he, -⟩ := List.lookup_eq_some_iff.mp hl
    refine List.mem_reverse.mp (?_ : _ ∈ granted)
    simp [he]
  · simp only [granted] at hl
    simp [Allocation.file, allocate, hi, hl]

theorem file_lt (h : j < (g.file i).messages.length ∨ j < (g.file i).enums.length) :
    i < g.files.length := by
  by_contra hn
  simp [Graph.file, Nat.le_of_not_lt hn] at h

theorem allocate_message {id : MessageId} (h : id.index < (g.file id.file).messages.length) :
    (allocate o g generate).message id =
      messageNames (g.file id.file) (Classes.of o.layout (g.file id.file))
        (methodTable (g.file id.file)) id.index := by
  obtain ⟨_, _, -, hf⟩ := allocate_file o generate (file_lt (Or.inl h))
  simp [Allocation.message, hf, fileNames, h]

theorem allocate_className {id : MessageId} (h : id.index < (g.file id.file).messages.length) :
    ((allocate o g generate).message id).className =
      messageName (g.file id.file) (Classes.of o.layout (g.file id.file)).types id.index := by
  rw [allocate_message h, messageNames]

theorem allocate_enumNames {id : EnumId} (h : id.index < (g.file id.file).enums.length) :
    (allocate o g generate).enumNames id =
      enumNames (g.file id.file) (Classes.of o.layout (g.file id.file)) id.index := by
  obtain ⟨_, _, -, hf⟩ := allocate_file o generate (file_lt (Or.inr h))
  simp [Allocation.enumNames, hf, fileNames, h]

theorem allocate_enumName {id : EnumId} (h : id.index < (g.file id.file).enums.length) :
    ((allocate o g generate).enumNames id).className =
      enumName (g.file id.file) (Classes.of o.layout (g.file id.file)).types id.index := by
  rw [allocate_enumNames h, enumNames]

end Files

/-- The names of a oneof that is a union. -/
def MessageNames.union (n : MessageNames) (o : Oneof) : UnionNames :=
  (n.unions.getD o.index none).getD default

/-- The names of a field. -/
def MessageNames.field (n : MessageNames) (f : Field) : MemberNames :=
  n.fields.getD f.index default

/-- The names of a member of a union. -/
def UnionNames.variant (u : UnionNames) (f : Field) : VariantNames :=
  (u.variants.find? (·.fieldIndex == f.index)).getD default

/-- Names for every part of a message. -/
structure MessageNames.Fits (n : MessageNames) (m : Message) : Prop where
  fields : n.fields.length = m.fields.length
  unions : n.unions = m.oneofs.map fun o => if o.synthetic then none else some (n.union o)
  variants : ∀ o ∈ m.oneofs, o.synthetic = false →
    (n.union o).variants.map (·.fieldIndex) = (unionMembers m o).map (·.index)
  extensions : n.extensions.length = m.extensions.length

theorem messageNames_fits {f : File} {classes : Classes} {methods : List (ConverterRole × String)}
    {i : Nat} (hm : (f.message i).Numbered) :
    (messageNames f classes methods i).Fits (f.message i) := by
  have hu : ∀ o ∈ (f.message i).oneofs, (messageNames f classes methods i).union o =
      (unionNames (f.message i) (classes.scopes.getD i []) (memberTable (f.message i)) o).getD
        default := by
    intro o ho
    simp [MessageNames.union, messageNames, Schema.getElem?_index hm.oneofs ho]
  constructor
  case fields => simp [messageNames]
  case unions =>
    rw [messageNames]
    refine List.map_congr_left fun o ho => ?_
    have := hu o ho
    rw [messageNames] at this
    rw [this]
    by_cases hs : o.synthetic <;> simp [unionNames, hs]
  case variants =>
    intro o ho hs
    rw [hu o ho]
    simp [unionNames, hs]
  case extensions => simp [messageNames, extensionNames]

/-- A union has names for its members, in order. -/
theorem MessageNames.Fits.variants_eq {n : MessageNames} {m : Message} (hn : n.Fits m)
    (hm : m.Numbered) {o : Oneof} (ho : o ∈ m.oneofs) (hs : o.synthetic = false) :
    (n.union o).variants = (unionMembers m o).map (n.union o).variant := by
  have hindex := hn.variants o ho hs
  have hnodup : ((n.union o).variants.map (·.fieldIndex)).Nodup := by
    rw [hindex]
    have hall : (m.fields.map (·.index)).Nodup := hm.fields ▸ List.nodup_range
    exact hall.sublist (List.filter_sublist.map _)
  have hvariant : ∀ w ∈ (n.union o).variants, ∀ f : Field, w.fieldIndex = f.index →
      w = (n.union o).variant f := by
    intro w hw f hf
    have hsome : ((n.union o).variants.find? (·.fieldIndex == f.index)).isSome :=
      List.find?_isSome.mpr ⟨w, hw, by simpa using hf⟩
    obtain ⟨w', hw'⟩ := Option.isSome_iff_exists.mp hsome
    have hindex' : w'.fieldIndex = f.index := by simpa using List.find?_some hw'
    have heq := List.inj_on_of_nodup_map hnodup hw (List.mem_of_find?_eq_some hw')
      (hf.trans hindex'.symm)
    simp [UnionNames.variant, hw', heq]
  rw [← List.forall₂_eq_eq_eq, List.forall₂_map_right_iff]
  rw [← List.forall₂_eq_eq_eq, List.forall₂_map_left_iff, List.forall₂_map_right_iff] at hindex
  refine List.forall₂_iff_get.mpr ⟨hindex.length_eq, fun i hi hi' => ?_⟩
  exact hvariant _ (List.get_mem ..) _ (hindex.get hi hi')

/-- Names for every declaration of a file. -/
structure FileNames.Fits (n : FileNames) (layout : Layout) (f : File) : Prop where
  messages : ∀ i < f.messages.length, (n.messages.getD i default).Fits (f.message i)
  enums : ∀ i < f.enums.length,
    (n.enums.getD i default).constants.length = (f.enumType i).values.length
  extensions : n.extensions.length = f.extensions.length
  extensionsClass : n.extensionsClass.isSome = !f.extensions.isEmpty
  wrapperClass : n.wrapperClass.isSome = (layout == .file)

theorem isSome_lookup_top {layout : Layout} {f : File} {role : ClassRole} :
    ((Classes.of layout f).top.lookup role).isSome =
      decide (role ∈ (topRequests layout f).map (·.1)) := by
  rw [← Classes.top_roles, Bool.eq_iff_iff]
  simp

theorem fileNames_fits {layout : Layout} {f : File} (hl : f.Linked) (package converter : String) :
    (fileNames layout f package converter).Fits layout f := by
  constructor
  case messages =>
    intro i hi
    simpa [fileNames, hi] using messageNames_fits (hl.message_numbered hi)
  case enums =>
    intro i hi
    simp [fileNames, hi, enumNames, Registry.claimAll_length]
  case extensions => simp [fileNames, extensionNames]
  case extensionsClass =>
    rw [fileNames, isSome_lookup_top]
    cases layout <;> by_cases he : f.extensions = [] <;>
      simp [topRequests, messageRequests, enumRequests, he]
  case wrapperClass =>
    rw [fileNames, isSome_lookup_top]
    cases layout <;> by_cases he : f.extensions = [] <;>
      simp [topRequests, messageRequests, enumRequests, he]

theorem allocate_fits {o : Options} {g : Graph} {generate : List Nat} {i : Nat}
    (hl : (g.file i).Linked) (hi : i < g.files.length) :
    ((allocate o g generate).file i).Fits o.layout (g.file i) := by
  obtain ⟨package, converter, -, hf⟩ := allocate_file o generate hi
  rw [hf]
  exact fileNames_fits hl package converter

section Layouts

variable (l l' : Layout) (f : File)

theorem top_file_eq : ∃ name, (Classes.of .file f).top =
    (Classes.of .type f).top ++ [(ClassRole.wrapper, name)] := by
  have h : topRequests .file f = topRequests .type f ++
      [(ClassRole.wrapper, camel f.baseName ++ "Beans")] := by
    simp [topRequests]
  rw [Classes.of, h, Registry.grant_append]
  exact ⟨_, rfl⟩

/-- The wrapper, which is named last, is the only class at the top that depends on the layout. -/
theorem lookup_top_layout {role : ClassRole} (hr : role ≠ .wrapper) :
    (Classes.of l f).top.lookup role = (Classes.of l' f).top.lookup role := by
  have hfile : (Classes.of .file f).top.lookup role = (Classes.of .type f).top.lookup role := by
    obtain ⟨name, h⟩ := top_file_eq f
    have hn : [(ClassRole.wrapper, name)].lookup role = none := lookup_eq_none (by simpa using hr)
    rw [h, List.lookup_append, hn, Option.or_none]
  cases l <;> cases l' <;> simp [hfile]

theorem scopes_layout : (Classes.of l f).scopes = (Classes.of l' f).scopes :=
  scopesFrom_congr fun _ => lookup_top_layout l l' f (by simp)

theorem lookup_types_layout {role : ClassRole} (hr : role.isType) :
    (Classes.of l f).types.lookup role = (Classes.of l' f).types.lookup role := by
  have hw : role ≠ .wrapper := by
    rintro rfl
    simp [ClassRole.isType] at hr
  rw [Classes.lookup_types hr, Classes.lookup_types hr, lookup_top_layout l l' f hw,
    scopes_layout l l' f]

theorem fileNames_layout (package converter : String) :
    fileNames l f package converter =
      { fileNames l' f package converter with
        wrapperClass := (Classes.of l f).top.lookup .wrapper } := by
  have hm : messageNames f (Classes.of l f) (methodTable f) =
      messageNames f (Classes.of l' f) (methodTable f) := by
    funext i
    simp only [messageNames, messageName, scopes_layout l l' f]
    rw [lookup_types_layout l l' f rfl]
  have he : enumNames f (Classes.of l f) = enumNames f (Classes.of l' f) := by
    funext i
    simp only [enumNames, enumName]
    rw [lookup_types_layout l l' f rfl]
  have hx : ClassRole.extensions ≠ .wrapper := by simp
  simp only [fileNames, hm, he, lookup_top_layout l l' f hx]

end Layouts

/-- The plans in the two layouts differ in the wrapper only. -/
theorem allocate_layout (o : Options) (l : Layout) (g : Graph) (generate : List Nat) (i : Nat) :
    ∃ wrapper, (allocate { o with layout := l } g generate).file i =
      { (allocate o g generate).file i with wrapperClass := wrapper } := by
  by_cases hi : i < g.files.length
  · simp only [Allocation.file, allocate, grantedFiles, packageRequest, List.getD_eq_getElem?_getD,
      List.getElem?_map, List.getElem?_range hi, Option.map_some, Option.getD_some]
    exact ⟨_, fileNames_layout l o.layout (g.file i) _ _⟩
  · refine ⟨none, ?_⟩
    simp [Allocation.file, allocate, hi]
    rfl

end ProtoJava.Naming
