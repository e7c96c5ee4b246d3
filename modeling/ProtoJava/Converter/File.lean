import ProtoJava.Converter.Encode
import ProtoJava.Java.Artifact

/-! # Converter sources

The source file with the converter of a schema file.
-/

namespace ProtoJava.Converter

open Java
open Mapping

namespace Site

/-- The conversion methods of a message. There are methods for bytes if it is not nested. -/
def messageMethods (s : Site) (id : Schema.MessageId) (shape : Shape) :
    Referring (List Step) := do
  let top := shape.message.parent.isNone
  let parse ← if top then pure [← s.parseMethod id, .blank] else pure []
  let decode ← s.decodeMethod id shape
  let encode ← s.encodeMethod id shape
  let bytes ← if top then pure [← s.bytesMethod id, .blank] else pure []
  return parse ++ decode ++ [.blank, encode, .blank] ++ bytes

/-- The messages that a converter deals with, by position. -/
def convertedMessages (s : Site) : List Nat :=
  (List.range s.source.messages.length).filter fun i => !(s.source.message i).mapEntry

/-- The class with the methods for the given messages. -/
def classSteps (s : Site) (name : String) (shapes : List (Schema.MessageId × Shape)) :
    Referring (List Step) := do
  let methods ← shapes.mapM fun (id, shape) => s.messageMethods id shape
  return declared [] "public class " name "" methods.flatten

end Site

/-- The source file with the converter of a file, if that declares messages. -/
def converter (ctx : Context) (file : Nat) : Except Error (Option Artifact) := do
  let s : Site := { toContext := ctx, file }
  if s.convertedMessages.isEmpty then return none
  let shapes ← s.convertedMessages.mapM fun i => do
    let id : Schema.MessageId := ⟨file, i⟩
    return (id, ← Shape.of ctx id)
  let class_ := ctx.names.converterClass ctx.options.converterPackage file
  let imports : Imports := { package := class_.package, own := [class_.simple] }
  let (steps, imports) := (s.classSteps class_.simple shapes).run imports
  return some (.assemble (sourcePath class_.package class_.simple) s.source.name
    (prologue class_.package s.source imports) (({} : Page).writeEach steps))

end ProtoJava.Converter
