import Protolink.Schema

/-!
# Histories of schemas

A schema that is grown by hand goes through steps, some of which fail. A step that fails may leave
something behind, and the next step goes on from there.
-/

namespace Protolink.Schema

/-- One way of changing a schema. -/
inductive Step where
  /-- Declares a file. -/
  | declare (generate : Bool) (d : FileDescriptor)
  /-- Links a registered file. -/
  | link (name : String)
  /-- Registers a declaration under a further key. -/
  | registerAs (kind : DeclKind) (name key : String)
  /-- Registers a declaration once more under its own name. -/
  | reregister (kind : DeclKind) (name : String)

variable (scheme : ImportScheme)

/-- Does a step. -/
def perform : Step → EStateM Error Schema Unit
  | .declare generate d => declare scheme generate d
  | .link name => linkFile name
  | .registerAs kind name key => registerAs kind name key
  | .reregister kind name => reregister kind name

/-- The schema that a step leaves, whether it fails or not. -/
def after (s : Schema) (step : Step) : Schema :=
  match perform scheme step s with
  | .ok () s' => s'
  | .error _ s' => s'

/-- The error of a step, if it fails. -/
def fault? (s : Schema) (step : Step) : Option Error :=
  match perform scheme step s with
  | .ok () _ => none
  | .error e _ => some e

/-- The schema that several steps leave. -/
def afterAll (s : Schema) (steps : List Step) : Schema := steps.foldl (after scheme) s

end Protolink.Schema
