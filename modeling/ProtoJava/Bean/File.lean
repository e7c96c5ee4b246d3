import ProtoJava.Bean.Message
import ProtoJava.Java.Artifact

/-! # Bean sources

The source files with the beans of a schema file, in either layout.
-/

namespace ProtoJava.Bean

open Java
open Mapping

/-- The declarations of a file that become classes of their own, or classes in a wrapper. -/
structure Contents where
  file : Schema.File
  package : String
  messages : List Outline
  enums : List EnumShape
  /-- The class of the file's own extensions, by its name. -/
  holder : Option (String × List Extension)

/-- The contents of a file, if all its fields can be resolved. -/
def Contents.of (ctx : Context) (file : Nat) : Except Error Contents := do
  let f := ctx.graph.file file
  let names := ctx.names.file file
  let messages ← (f.topMessages.filter fun i => !(f.message i).mapEntry).mapM (Outline.of ctx file)
  let extensions ← extensionsOf ctx none f.extensions names.extensions
  return {
    file := f
    package := names.beanPackage
    messages
    enums := f.topEnums.map (EnumShape.of ctx file)
    holder := names.extensionsClass.map (·, extensions) }

/-- The source file of a class, where `nested` classes are declared in it. -/
def sourceFile (c : Contents) (className : String) (nested : List String)
    (steps : Referring (List Step)) : Artifact :=
  let imports : Imports := { package := c.package, own := [className], nested }
  let (steps, imports) := steps.run imports
  .assemble (sourcePath c.package className) c.file.name (prologue c.package c.file imports)
    (({} : Page).writeEach steps)

/-- A source file for each class. -/
def Contents.separate (c : Contents) (ctx : Context) : List Artifact :=
  (c.messages.map fun o =>
    sourceFile c o.className o.innerNames (messageSteps ctx c.file "public " o)) ++
  (c.enums.map fun e => sourceFile c e.names.className [] (return enumSteps c.file e)) ++
  (c.holder.toList.map fun (name, extensions) =>
    sourceFile c name [] (return holderSteps c.file "public " name extensions))

/-- The classes inside a wrapper. -/
def wrapperSteps (ctx : Context) (c : Contents) (wrapper : String) : Referring (List Step) := do
  let messages ← nestedSteps ctx c.file c.messages
  let holder := c.holder.toList.flatMap fun (name, extensions) =>
    holderSteps c.file "public static " name extensions
  return declared [] "public final class " wrapper "" (
    [.line ("private " ++ wrapper ++ "() \x7b\x7d"), .blank] ++ messages ++
    c.enums.flatMap (fun e => enumSteps c.file e ++ [.blank]) ++ holder)

/-- One source file with all classes in a wrapper, if there are any. -/
def Contents.wrapped (c : Contents) (ctx : Context) (wrapper : String) : List Artifact :=
  if c.messages.isEmpty && c.enums.isEmpty && c.file.extensions.isEmpty then []
  else
    let nested := Outline.namesOfAll c.messages ++ c.enums.map (·.names.className) ++
      c.holder.toList.map (·.1)
    [sourceFile c wrapper nested (wrapperSteps ctx c wrapper)]

/-- The source files with the beans of a file. -/
def beans (ctx : Context) (file : Nat) : Except Error (List Artifact) := do
  let c ← Contents.of ctx file
  match (ctx.names.file file).wrapperClass with
  | some wrapper => return c.wrapped ctx wrapper
  | none => return c.separate ctx

end ProtoJava.Bean
