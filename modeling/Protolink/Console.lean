import Protolink.Trace
import Protolink.Wire.Codec
import Protolink.Text.Upper

/-!
# The command line

A command reads a request, runs a generator on it and writes the response. A request that is
refused is reported as one line of text instead, and the command fails. Nothing else is written,
unless the log is wanted. Errors of a kind that requests are not refused with would end the command
with a backtrace.
-/

namespace Protolink.Console

/-! ## Log levels -/

/-- The names of log levels. -/
def levels : List String :=
  ["CRITICAL", "FATAL", "ERROR", "WARN", "WARNING", "INFO", "DEBUG", "NOTSET"]

/-- The log level that a setting asks for; without one, or with an unknown one, it is warnings. -/
def logLevel (setting : Option String) : String :=
  let level := Text.upper (setting.getD "WARNING")
  if level ∈ levels then level else "WARNING"

/-- Whether a log level lets the events of a run through. -/
def logsEvents (level : String) : Bool := level ∈ ["DEBUG", "NOTSET"]

/-- The text of a log. The failure of a generator is the last event, and no line break follows. -/
def log (events : List Event) : String :=
  String.join (events.map fun e => if e = .generatorFailed then e.line else e.line ++ "\n")

/-! ## Runs -/

/-- What a command leaves behind. -/
structure Outcome where
  status : Nat
  /-- The bytes for the caller. -/
  output : Wire.Bytes
  /-- The text for a reader. -/
  report : String
deriving DecidableEq, Repr

/-- Whether a command reports an error itself. -/
def isReported (e : Error) : Bool := e.isDescriptorFault || e = .undecodable || e.isBadValue

section Runs

variable [WorkingDirectory] (codec : Wire.Codec)

/-- The response to a request on the wire, or why there is none. -/
def respond (generator : Generator) (input : Wire.Bytes)
    (backtrace : Error → String := fun _ => "") : Except Error Response :=
  match codec.readRequest input with
  | none => .error .undecodable
  | some r => r.process generator .standard Plugin.optionalFields backtrace

/-- What happens while a request on the wire is answered. -/
def events (generator : Generator) (input : Wire.Bytes) : List Event :=
  match codec.readRequest input with
  | none => []
  | some r => r.events generator

/-- Runs a command: at the end there is either a response or the report of an error. An error that
is not reported escapes, and `backtrace` is what is left of it. -/
def run (level : String) (generator : Generator) (input : Wire.Bytes)
    (backtrace : Error → String := fun _ => "") : Outcome :=
  let logged := if logsEvents level then log (events codec generator input) else ""
  match respond codec generator input backtrace with
  | .ok response => ⟨0, codec.writeResponse response, logged⟩
  | .error e =>
    if isReported e then ⟨1, [], logged ++ "protoc plugin error: " ++ e.message ++ "\n"⟩
    else ⟨1, [], logged ++ backtrace e⟩

end Runs

end Protolink.Console
