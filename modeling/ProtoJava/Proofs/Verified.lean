import ProtoJava.Compile
import ProtoJava.Proofs.Bean.Verified
import ProtoJava.Proofs.Converter.Verified

/-! # Verified source files

Whatever is generated for spelled files passes its verification, whatever their comments and the
defaults of their texts and bytes are.
-/

namespace ProtoJava

open Java (Artifact Inline Neutral isIdentifier neutral_of_plain isPlain_of)
open Mapping (Context)
open Schema (Graph MessageId EnumId isDottedPart)

section Contexts

variable {raws : List Descriptor.File} {g : Graph} {o : Options} {generate : List Nat}

theorem inline_of_isDottedPart {s : String} (h : ∀ c ∈ s.toList, isDottedPart c) : Inline s :=
  (neutral_of_plain fun c hc => isPlain_of (h c hc) (by decide)).inline

theorem message_typeName (hg : Graph.build raws = .ok g) (hs : g.Spelled) (id : MessageId) :
    ∀ t ∈ (g.message id).typeName, Neutral t := by
  rw [Graph.message]
  rcases Nat.lt_or_ge id.index (g.file id.file).messages.length with hi | hi
  · have hfile := Graph.file_of_lt (Naming.file_lt (Or.inl hi))
    intro t ht
    have hproper := (hs.proper hg hfile).1 _ (Schema.File.message_mem hi)
    exact Naming.neutral_of_isName (hproper.names t ht)
  · rw [Schema.File.message_of_le hi]
    simp

theorem enum_typeName (hg : Graph.build raws = .ok g) (hs : g.Spelled) (id : EnumId) :
    ∀ t ∈ (g.enumType id).typeName, Neutral t := by
  rw [Graph.enumType]
  rcases Nat.lt_or_ge id.index (g.file id.file).enums.length with hi | hi
  · have hfile := Graph.file_of_lt (Naming.file_lt (Or.inr hi))
    intro t ht
    have hproper := (hs.proper hg hfile).2 _ (Schema.File.enumType_mem hi)
    exact Naming.neutral_of_isName (hproper.names t ht)
  · rw [Schema.File.enumType_of_le hi]
    simp

theorem allocate_file_mem {i : Nat} (hi : i < g.files.length) :
    (Naming.allocate o g generate).file i ∈ (Naming.allocate o g generate).files := by
  have hlength : (Naming.allocate o g generate).files.length = g.files.length := by
    simp [Naming.allocate]
  rw [Naming.Allocation.file, List.getD_eq_getElem _ _ (hlength ▸ hi)]
  exact List.getElem_mem _

/-- Sources are written in a proper context. -/
theorem prepare_proper (hg : Graph.build raws = .ok g) (hs : g.Spelled)
    (hbean : Naming.isPackageName o.beanPackage.toList)
    (hconverter : Naming.isPackageName o.converterPackage.toList)
    (hc : ∀ n ∈ (Naming.allocate o g generate).files, ∀ name ∈ n.classNames,
      isIdentifier name.toList) : (Context.prepare o g generate).Proper := by
  have hnames : (Naming.allocate o g generate).Proper := Naming.allocate_proper hg hs hbean hc
  constructor
  case linked => exact Schema.Graph.build_linked hg
  case spelled => exact hs
  case resolve => exact fun name ref h => inline_of_isDottedPart (hs.resolve hg h)
  case fullName => exact fun id => inline_of_isDottedPart (hs.message_fullName hg id)
  case typeName => exact message_typeName hg hs
  case enumTypeName => exact enum_typeName hg hs
  case converterPackage => exact hconverter
  case names => exact hnames
  case messageNames =>
    intro id hi
    change id.index < (g.file id.file).messages.length at hi
    have hlt := Naming.file_lt (Or.inl hi)
    have hproper := hnames _ (allocate_file_mem hlt)
    obtain ⟨package, converter, -, hf⟩ := Naming.allocate_file o generate hlt
    have hmessage : (Naming.allocate o g generate).message id = _ := Naming.allocate_message hi
    change ((Naming.allocate o g generate).message id).Proper
    rw [hmessage]
    rw [hf] at hproper
    exact hproper.messages _ (List.mem_map.mpr ⟨id.index, List.mem_range.mpr hi, rfl⟩)
  case enumNames =>
    intro id hi
    change id.index < (g.file id.file).enums.length at hi
    have hlt := Naming.file_lt (Or.inr hi)
    have hproper := hnames _ (allocate_file_mem hlt)
    obtain ⟨package, converter, -, hf⟩ := Naming.allocate_file o generate hlt
    have henum : (Naming.allocate o g generate).enumNames id = _ := Naming.allocate_enumNames hi
    change ((Naming.allocate o g generate).enumNames id).Proper
    rw [henum]
    rw [hf] at hproper
    exact hproper.enums _ (List.mem_map.mpr ⟨id.index, List.mem_range.mpr hi, rfl⟩)

end Contexts

/-- Every source file that is generated for a file of a request is verified, in either layout. The
names in the files of the request are proper ones, and those of all classes are identifiers. -/
theorem generated_verify {text : String} {o : Options} (ho : Options.read text = .ok o)
    {raws : List Descriptor.File} {g : Graph} (hg : Graph.build raws = .ok g) (hs : g.Spelled)
    (l : Layout) (generate : List Nat)
    (hc : ∀ n ∈ (Naming.allocate { o with layout := l } g generate).files, ∀ name ∈ n.classNames,
      isIdentifier name.toList)
    {file : Nat} (hfile : file < g.files.length) :
    (∀ as, Bean.beans (Context.prepare { o with layout := l } g generate) file = .ok as →
      ∀ a ∈ as, a.verify = .ok ()) ∧
    ∀ a, Converter.converter (Context.prepare { o with layout := l } g generate) file =
      .ok (some a) → a.verify = .ok () := by
  obtain ⟨hbean, hconverter⟩ := Options.read_packages ho
  have hctx : (Context.prepare { o with layout := l } g generate).Proper :=
    prepare_proper hg hs hbean hconverter hc
  have hf : ((Context.prepare { o with layout := l } g generate).names.file file).Proper :=
    hctx.names _ (allocate_file_mem hfile)
  constructor
  · exact fun as h => Bean.beans_verify hctx hf hfile h
  · exact fun a h => Converter.converter_verify hctx hf hfile h

/-- A file whose comments and defaults of texts hold quotes and brackets that nothing closes. -/
def chat : Descriptor.File where
  name := "chat.proto"
  package := "chat"
  javaPackage := some "org.chat"
  messages := [{
    name := "Line"
    fields := [
      { name := "text", number := 1, type := 9, label := 1, defaultValue := some "*/ \"(\\[\n" },
      { name := "raw", number := 2, type := 12, label := 1, defaultValue := some "\\\"\x7b\\001" },
      { name := "level", number := 3, type := 1, label := 1, defaultValue := some "-inf" },
      { name := "counts", number := 4, type := 11, label := 3,
        typeName := ".chat.Line.CountsEntry" },
      { name := "mood", number := 5, type := 14, label := 1, typeName := ".chat.Line.Mood",
        oneofIndex := some 0 },
      { name := "reply", number := 6, type := 11, label := 1, typeName := ".chat.Line",
        oneofIndex := some 0 }]
    nested := [{
      name := "CountsEntry"
      fields := [
        { name := "key", number := 1, type := 9, label := 1 },
        { name := "value", number := 2, type := 5, label := 1 }]
      mapEntry := true }]
    enums := [{ name := "Mood", values := [{ name := "CALM" }] }]
    oneofs := ["mark"] }]
  extensions := [
    { name := "rank", number := 101, type := 5, label := 1, extendee := some ".chat.Line",
      defaultValue := some "-7" }]
  locations := [
    { path := [4, 0], leading := some " */ \x7b \"unclosed\n'(" },
    { path := [4, 0, 2, 0], trailing := some "\\u002a/ [" }]

theorem generated_verify_chat :
    ∃ g as a, Graph.build [chat] = .ok g ∧
      Bean.beans (Context.prepare ⟨"bean", "bean.converter", .file, false⟩ g [0]) 0 = .ok as ∧
      Converter.converter (Context.prepare ⟨"bean", "bean.converter", .file, false⟩ g [0]) 0 =
        .ok (some a) ∧ as ≠ [] ∧ (∀ b ∈ as, b.verify = .ok ()) ∧ a.verify = .ok () := by
  let g := (Graph.build [chat]).toOption.getD default
  have hg : Graph.build [chat] = .ok g := rfl
  let ctx := Context.prepare ⟨"bean", "bean.converter", .file, false⟩ g [0]
  have hroots : ((ctx.graph.file 0).topMessages.filter fun i =>
      !((ctx.graph.file 0).message i).mapEntry) = [0] := by
    decide +kernel
  have hbeans : (Bean.beans ctx 0).toOption.any (!·.isEmpty) := by
    rw [Bean.beans, Bean.Contents.of, hroots, List.mapM_cons, Bean.Outline.of]
    decide +kernel
  have hconverter : (Converter.converter ctx 0).toOption.any (·.isSome) := by
    decide +kernel
  obtain ⟨as, has, hne⟩ := exists_eq_ok_of_any hbeans
  obtain ⟨converter, ha, hsome⟩ := exists_eq_ok_of_any hconverter
  obtain ⟨a, rfl⟩ := Option.isSome_iff_exists.mp hsome
  have ho : Options.read "vopkg=bean,layout=type" =
      .ok ⟨"bean", "bean.converter", .type, false⟩ := rfl
  obtain ⟨hb, hc⟩ := generated_verify ho hg (by decide +kernel) .file [0] (by decide +kernel)
    (show 0 < g.files.length by decide)
  exact ⟨g, as, a, hg, has, ha, by simpa using hne, hb as has, hc a ha⟩

end ProtoJava
