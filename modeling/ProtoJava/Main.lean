import ProtoJava.CommandLine

/-! # Program

Reads a request, saves it if asked to, and writes the answer.
-/

namespace ProtoJava

/-- What to say about an error of input or output. -/
def reasonOf : IO.Error → String
  | .noFileOrDirectory .. => "No such file or directory (os error 2)"
  | e => toString e

/-- Reads a stream up to its end. -/
partial def readToEnd (stream : IO.FS.Stream) (before : ByteArray) : IO ByteArray := do
  let bytes ← stream.read 65536
  if bytes.isEmpty then return before else readToEnd stream (before ++ bytes)

/-- Reads the request and saves it if asked to. -/
def readRequest (i : Invocation) : IO ByteArray := do
  let bytes ← match i.request with
    | some file => IO.FS.readBinFile file
    | none => readToEnd (← IO.getStdin) ByteArray.empty
  if let some file := i.dump then
    IO.FS.writeBinFile file bytes
  return bytes

def runInvocation (i : Invocation) : IO UInt32 := do
  let (output, succeeded) ←
    try
      let bytes ← readRequest i
      pure (i.answer bytes.toList)
    catch e => pure (.ofError i (.unreadable (reasonOf e)), false)
  let stdout ← IO.getStdout
  stdout.write ⟨output.bytes.toArray⟩
  stdout.flush
  return if succeeded then 0 else 1

def usage : String :=
  "Usage: protoc-gen-bean [--request FILE] [--dump-request FILE] [--describe]"

end ProtoJava

def main (arguments : List String) : IO UInt32 := do
  match ProtoJava.CommandLine.read arguments with
  | .invocation i => ProtoJava.runInvocation i
  | .help =>
    IO.println ProtoJava.usage
    return 0
  | .malformed =>
    IO.eprintln ProtoJava.usage
    return 2
