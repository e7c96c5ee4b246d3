import ProtoJava.Error
import ProtoJava.Naming.PackageName
import ProtoJava.Text.Blank

/-! # Options

The options of a request, given as one text: items `key=value` or bare keys with commas between
them. Of several items with one key the last counts, and unknown keys are ignored.
-/

namespace ProtoJava

open Text

/-- How beans are spread over source files: one for each top-level type, or one for each schema
file with its types inside a wrapper class. -/
inductive Layout
  | type | file
deriving Repr, DecidableEq, Inhabited

structure Options where
  beanPackage : String
  converterPackage : String
  layout : Layout := .type
  annotateCode : Bool := false
deriving Repr, DecidableEq, Inhabited

/-- The key and value of an item, without white space around them. -/
def optionItem (item : List Char) : List Char × List Char :=
  match cut? '=' item with
  | some (key, value) => (trim key, trim value)
  | none => (trim item, [])

/-- The items of a text of options. -/
def optionItems (text : List Char) : List (List Char × List Char) :=
  ((pieces ',' text).filter (· ≠ [])).map optionItem

/-- The value in force for a key. -/
def optionValue? (items : List (List Char × List Char)) (key : String) : Option (List Char) :=
  items.reverse.lookup key.toList

/-- A package as it is understood: in lower case, without dots at its ends. -/
def normalPackage (value : List Char) : List Char :=
  dropEndsWhile (· = '.') (lower value)

/-- The text of a package name, given for `key`. -/
def packageFor (key : String) (package : List Char) : Except Error String :=
  if Naming.isPackageName package then .ok (String.ofList package)
  else .error (.options (.notAPackage key (String.ofList package)))

def layoutFor : Option (List Char) → Except Error Layout
  | none => .ok .type
  | some value =>
    if value = "type".toList then .ok .type
    else if value = "file".toList then .ok .file
    else .error (.options (.unknownLayout (String.ofList value)))

/-- Reads the options of a request. -/
def Options.read (text : String) : Except Error Options := do
  let items := optionItems text.toList
  let bean := normalPackage ((optionValue? items "vopkg").getD [])
  if bean = [] then throw (.options .noBeanPackage)
  let beanPackage ← packageFor "vopkg" bean
  let given := normalPackage ((optionValue? items "cvtpkg").getD [])
  let converterPackage ←
    packageFor "cvtpkg" (if given = [] then bean ++ ".converter".toList else given)
  let layout ← layoutFor (optionValue? items "layout")
  let annotate := optionValue? items "annotate_code"
  return {
    beanPackage, converterPackage, layout
    annotateCode := annotate = some [] ∨ annotate = some "true".toList }

end ProtoJava
