import Protolink.Buffer
import Protolink.Parameters
import Protolink.Schema

/-!
# Plugins

A plugin answers a request: its generator reads the linked schema and writes buffers. The response
is all or nothing. If the generator fails or reports an error, no file is returned.
-/

namespace Protolink

/-- The answer to a request. -/
inductive Response where
  /-- An error and no file. -/
  | failed (message : String)
  | generated (supportedFeatures : Nat) (files : List OutputFile)
deriving DecidableEq, Repr

/-- One invocation of a plugin, as its generator sees it. -/
structure Plugin where
  parameters : Parameters
  schema : Schema
  /-- The flags of the optional features that the plugin supports. -/
  supportedFeatures : Nat
  buffers : List Buffer := []
  /-- The error that was reported first. -/
  error? : Option String := none

/-- What a plugin runs on a request. -/
abbrev Generator := EStateM Error Plugin Unit

namespace Plugin

/-- The flag for explicitly optional fields. -/
def optionalFields : Nat := 1

/-- A plugin for a request and its schema, before its generator runs. -/
def start (r : Request) (schema : Schema) (supportedFeatures : Nat := optionalFields) : Plugin where
  parameters := Parameters.parse r.parameter
  schema := schema
  supportedFeatures := supportedFeatures

/-- A plugin for a request that names files, and files to generate, and makes a schema. -/
def ofRequest (r : Request) (scheme : ImportScheme := .standard)
    (supportedFeatures : Nat := optionalFields) : Except Error Plugin :=
  if r.files = [] then .error .noFiles
  else if r.filesToGenerate = [] then .error .noFilesToGenerate
  else return start r (← Schema.ofFiles scheme r.files r.filesToGenerate) supportedFeatures

variable (p : Plugin)

def filesToGenerate : List File := p.schema.filesToGenerate

/-- Appends a buffer for a new output file. -/
def newBuffer (name : String) (home : ImportPath) : Plugin :=
  { p with buffers := p.buffers ++ [{ name, home }] }

/-- Reports an error; later ones are ignored. -/
def report (message : String) : Plugin :=
  { p with error? := p.error?.or (some message) }

variable [WorkingDirectory]

/-- The response once the generator has run: the reported error, or else all files. -/
def response : Response :=
  match p.error? with
  | some message => .failed message
  | none => .generated p.supportedFeatures (p.buffers.map (·.file))

/-- The response to a generator's run, which may have failed. A backtrace says where, if there is
one. -/
def conclude (backtrace : Error → String := fun _ => "") :
    EStateM.Result Error Plugin Unit → Response
  | .ok () p => p.response
  | .error e _ => .failed ("Plugin exited with error: \"" ++ e.message ++ "\"" ++ backtrace e)

end Plugin

/-- Answers a request. A request with a fault is refused before the generator runs. -/
def Request.process [WorkingDirectory] (r : Request) (generator : Generator)
    (scheme : ImportScheme := .standard) (supportedFeatures : Nat := Plugin.optionalFields)
    (backtrace : Error → String := fun _ => "") : Except Error Response := do
  let p ← Plugin.ofRequest r scheme supportedFeatures
  return Plugin.conclude backtrace (generator p)

/-- A generator that writes one buffer for each file to generate. -/
def Generator.perFile (write : Schema → File → Except Error Buffer) : Generator := fun p =>
  match p.filesToGenerate.mapM (write p.schema) with
  | .ok buffers => .ok () { p with buffers := p.buffers ++ buffers }
  | .error e => .error e p

/-- The name of the output for a schema file. -/
def outputName (name suffix : String) : String := ImportScheme.stem name ++ suffix

end Protolink
