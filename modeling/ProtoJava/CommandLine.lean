import ProtoJava.Plugin

/-! # Command line

The arguments of the program, and what it writes for them.
-/

namespace ProtoJava

/-- What the program is asked to do. -/
structure Invocation where
  /-- The file that holds the request, in place of standard input. -/
  request : Option String := none
  /-- The file that the request is saved to. -/
  dump : Option String := none
  /-- Whether the schema is described, and no sources are generated. -/
  describe : Bool := false
deriving Repr, DecidableEq, Inhabited

/-- The outcome of reading arguments. -/
inductive CommandLine
  | invocation (i : Invocation)
  | help
  | malformed
deriving Repr, DecidableEq, Inhabited

/-- Whether a text can be the value of an option that precedes it. -/
def isOptionValue (s : String) : Bool :=
  match s.toList with
  | [] => false
  | ['-'] => true
  | c :: _ => c ≠ '-'

/-- The value in an argument `name=value`. -/
def attachedValue? (name argument : String) : Option String :=
  (Text.dropLead? (name ++ "=").toList argument.toList).map String.ofList

/-- Sets the file of the request, if it has not been set. -/
def Invocation.setRequest? (i : Invocation) (file : String) : Option Invocation :=
  if i.request.isSome || file.isEmpty then none else some { i with request := some file }

/-- Sets the file that the request is saved to, if it has not been set. -/
def Invocation.setDump? (i : Invocation) (file : String) : Option Invocation :=
  if i.dump.isSome || file.isEmpty then none else some { i with dump := some file }

/-- Reads arguments after those that `i` comes from. -/
def CommandLine.readFrom (i : Invocation) : List String → CommandLine
  | [] => .invocation i
  | "--" :: rest => if rest.isEmpty then .invocation i else .malformed
  | "--help" :: _ => .help
  | "--describe" :: rest =>
    if i.describe then .malformed else readFrom { i with describe := true } rest
  | "--request" :: value :: rest =>
    match if isOptionValue value then i.setRequest? value else none with
    | some i => readFrom i rest
    | none => .malformed
  | "--dump-request" :: value :: rest =>
    match if isOptionValue value then i.setDump? value else none with
    | some i => readFrom i rest
    | none => .malformed
  | argument :: rest =>
    if "-h".toList.isPrefixOf argument.toList then .help
    else
      let i :=
        match attachedValue? "--request" argument, attachedValue? "--dump-request" argument with
        | some value, _ => i.setRequest? value
        | none, some value => i.setDump? value
        | none, none => none
      match i with
      | some i => readFrom i rest
      | none => .malformed

/-- Reads the arguments of the program. -/
def CommandLine.read (arguments : List String) : CommandLine :=
  readFrom {} arguments

/-- What the program writes. -/
inductive Output
  | nothing
  | description (text : String)
  | response (r : Response)
deriving Repr, DecidableEq, Inhabited

/-- What the program writes about an error; a description is not replaced by anything. -/
def Output.ofError (i : Invocation) (e : Error) : Output :=
  if i.describe then .nothing else .response (.ofError e)

/-- What the program writes for a request, and whether it has succeeded. -/
def Invocation.answer (i : Invocation) (request : Wire.Bytes) : Output × Bool :=
  if i.describe then
    match describeBytes request with
    | .ok text => (.description text, true)
    | .error _ => (.nothing, false)
  else
    match decodeRequest request with
    | .ok r => let response := respond r; (.response response, response.error.isNone)
    | .error e => (.ofError i e, false)

/-- The bytes of an output. -/
def Output.bytes : Output → Wire.Bytes
  | nothing => []
  | description text => (text ++ "\n").toUTF8.toList
  | response r => r.encode

end ProtoJava
