import Protolink.Plugin

/-!
# What happened during a run

The events of a run can be told from what it leaves: the registry is the journal of all
registrations, and a linked node shows which of its references were passed over. Events come in the
order in which they happened, also when the run stopped half-way.
-/

namespace Protolink

inductive Event where
  | requested (files : Nat) (wanted : List String)
  | registered (kind : DeclKind) (key : String)
  | declared (file : String) (messages enums services extensions : Nat)
  | typeNameIgnored (field typeName : String) (kind : FieldKind)
  | entriesHidden (message : String) (entries : List String)
  | resolved (files toGenerate : Nat)
  | generatorFailed
  | finalized (buffer : String) (lines imports : Nat)
deriving DecidableEq, Repr

namespace Event

/-- The part of the program that an event is logged by. -/
def logger : Event → String
  | requested .. | generatorFailed => "protoc_graph.plugin"
  | registered .. => "protoc_graph.registry"
  | declared .. => "protoc_graph.descriptor.builder"
  | typeNameIgnored .. | entriesHidden .. => "protoc_graph.descriptor.linker"
  | resolved .. => "protoc_graph.descriptor.graph"
  | finalized .. => "protoc_graph.generator.generated_file"

def message : Event → String
  | requested files wanted =>
    "request: " ++ toString files ++ " proto file(s), generating " ++ ", ".intercalate wanted
  | registered kind key => "registered " ++ kind.name ++ " " ++ key
  | declared file messages enums services extensions =>
    "built file " ++ file ++ ": " ++ toString messages ++ " message(s), " ++ toString enums
      ++ " enum(s), " ++ toString services ++ " service(s), " ++ toString extensions
      ++ " extension(s)"
  | typeNameIgnored field typeName kind =>
    field ++ ": ignoring type_name " ++ typeName ++ " of " ++ kind.name ++ " field"
  | entriesHidden message entries =>
    message ++ ": dropped map entries " ++ ", ".intercalate entries
  | resolved files toGenerate =>
    "resolved " ++ toString files ++ " file(s), " ++ toString toGenerate ++ " to generate"
  | generatorFailed => "generator failed"
  | finalized buffer lines imports =>
    "finalized " ++ buffer ++ ": " ++ toString lines ++ " line(s), " ++ toString imports
      ++ " import(s)"

/-- The line of a log for an event. -/
def line (e : Event) : String := e.logger ++ ": DEBUG: " ++ e.message

end Event

/-! ## Declaring -/

/-- The registrations of a file's declarations, and the end of the file if it was reached. -/
def File.declaring (registry : Registry Symbol) (f : File) : List Event :=
  ((registry.journal.filter (·.value.origin.name == f.name)).map fun e =>
      .registered e.kind e.key)
    ++ if f.isComplete then
        [.declared f.name f.messages.length f.enums.length f.services.length f.extensions.length]
      else []

/-! ## Linking -/

/-- A type name that was passed over because the field's kind has no use for it. -/
def Field.linking (f : Field) : List Event :=
  if f.enumType.isSet ∧ f.kind.targetKind? = none ∧ f.typeName ≠ "" then
    [.typeNameIgnored f.fullName f.typeName f.kind]
  else []

namespace Message

/-- The map entries that a message hides, if there are some. -/
def hidingEntries (body : MessageBody) (nested : List Message) : List Event :=
  let entries := (nested.filter fun n => n.isComplete && n.isMapEntry).map (·.name)
  if body.hidesEntries ∧ entries ≠ [] then [.entriesHidden body.fullName entries] else []

mutual

/-- What happened while a message was linked, its nested messages first. -/
def linking : Message → List Event
  | ⟨body, nested⟩ =>
    linkingOf nested ++ (body.fields ++ body.extensions).flatMap (·.linking)
      ++ hidingEntries body nested

/-- What happened while several messages were linked. -/
def linkingOf : List Message → List Event
  | [] => []
  | m :: ms => m.linking ++ linkingOf ms

end

end Message

/-- What happened while a file was linked. -/
def File.linking (f : File) : List Event :=
  Message.linkingOf f.ownMessages ++ f.extensions.flatMap (·.linking)

namespace Schema

/-- What happened while a schema was assembled, up to the end or the fault that stopped it. -/
def events (s : Schema) : List Event :=
  s.files.flatMap (·.declaring s.registry) ++ s.files.flatMap (·.linking)

end Schema

/-! ## Generating -/

variable [WorkingDirectory]

/-- The end of a buffer. -/
def Buffer.finalizing (b : Buffer) : Event :=
  .finalized b.name b.finalLines.length b.imports.length

/-- What happened when a generator had run. -/
def Plugin.finishing : EStateM.Result Error Plugin Unit → List Event
  | .error _ _ => [.generatorFailed]
  | .ok () p => if p.error?.isSome then [] else p.buffers.map (·.finalizing)

/-! ## Requests -/

/-- What happens while a request is answered. Nothing is declared if no file is given or wanted. -/
def Request.events (r : Request) (generator : Generator) : List Event :=
  .requested r.files.length r.filesToGenerate ::
    if r.files = [] ∨ r.filesToGenerate = [] then []
    else match Schema.assemble .standard r.files r.filesToGenerate {} with
      | .error _ s => s.events
      | .ok () s =>
        s.events ++ .resolved s.files.length s.filesToGenerate.length ::
          Plugin.finishing (generator (Plugin.start r s))

end Protolink
