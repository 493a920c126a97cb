import Protolink.Plugin
import Protolink.Text.Line

/-!
# Listings

A listing describes a linked file: its imports with their sizes, and its declarations with what
their references mean. Lists are indented below their headings.
-/

namespace Protolink.Listing

/-- A line, indented by a number of blanks. -/
def indented (level : Nat) (text : String) : String :=
  String.ofList (List.replicate level ' ') ++ text

/-- The name of what a reference means. -/
def targetName (target : Option Symbol) : String :=
  match target with
  | some s => s.fullName
  | none => "None"

def boolName (b : Bool) : String := if b then "true" else "false"

/-- The block of an enum. -/
def enumBlock (level : Nat) (e : EnumType) : List String :=
  [indented level ("- name: " ++ e.fullName), indented level "  values:"]
    ++ e.values.flatMap fun v =>
      [indented (level + 2) ("- name: " ++ v.fullName),
       indented (level + 2) ("  number: " ++ toString v.number)]

variable (schema : Schema)

/-- The line that says what a map consists of; other fields have none. -/
def mapLines (level : Nat) (f : Field) : Except Error (List String) := do
  let some key ← schema.mapKey? f | return []
  let some value ← schema.mapValue? f | return []
  return [indented level ("  map: " ++ key.kind.name ++ " -> " ++ value.kind.name)]

/-- The block of a field of a message. -/
def fieldBlock (level : Nat) (owner : MessageBody) (f : Field) : Except Error (List String) := do
  let message ← f.message.get
  let enumType ← f.enumType.get
  let map ← mapLines schema level f
  let oneof := (f.oneof.bind (owner.oneofs[·]?)).map fun o =>
    indented level ("  oneof: " ++ o.name)
  return [indented level ("- name: " ++ f.fullName),
      indented level ("  kind: " ++ f.kind.name),
      indented level ("  cardinality: " ++ f.cardinality.name),
      indented level ("  message: " ++ targetName message),
      indented level ("  enum: " ++ targetName enumType)]
    ++ map ++ oneof.toList

mutual

/-- The block of a message, with the blocks of what is listed inside it. -/
def messageBlock (level : Nat) : Message → Except Error (List String)
  | ⟨body, nested⟩ => do
    let fields ← body.fields.mapM (fieldBlock schema (level + 2) body)
    let messages ← nestedBlocks (level + 2) body nested
    return [indented level ("- name: " ++ body.fullName), indented level "  fields:"]
      ++ fields.flatten
      ++ [indented level "  messages:"] ++ messages
      ++ [indented level "  enums:"] ++ body.enums.flatMap (enumBlock (level + 2))

/-- The blocks of those messages nested in `body` that are listed. -/
def nestedBlocks (level : Nat) (body : MessageBody) : List Message → Except Error (List String)
  | [] => return []
  | m :: ms => do
    let first ← if body.lists m.toMessageBody then messageBlock level m else pure []
    return first ++ (← nestedBlocks level body ms)

end

/-- The block of an imported file. -/
def dependencyBlock (d : File) : List String :=
  ["- name: " ++ d.name,
   "  num_dependencies: " ++ toString d.dependencies.length,
   "  num_messages: " ++ toString d.collectMessages.length,
   "  num_enums: " ++ toString d.collectEnums.length,
   "  num_services: " ++ toString d.services.length,
   "  num_extensions: " ++ toString d.extensions.length]

/-- The block of a method. -/
def methodBlock (m : Method) : Except Error (List String) := do
  let input ← m.input.get
  let output ← m.output.get
  return ["  - name: " ++ m.fullName,
    "    input: " ++ input.fullName,
    "    output: " ++ output.fullName,
    "    client_streaming: " ++ boolName m.clientStreaming,
    "    server_streaming: " ++ boolName m.serverStreaming,
    "    path: " ++ m.path]

/-- The block of a service. -/
def serviceBlock (s : Service) : Except Error (List String) := do
  let methods ← s.methods.mapM methodBlock
  return ["- name: " ++ s.fullName, "  methods:"] ++ methods.flatten

/-- The block of a top-level extension. -/
def extensionBlock (x : Field) : Except Error (List String) := do
  let extendee ← x.extendee.get
  let message ← x.message.get
  let enumType ← x.enumType.get
  return ["- name: " ++ x.fullName,
    "  extendee: " ++ (extendee.map (·.fullName)).getD "",
    "  message: " ++ targetName message,
    "  enum: " ++ targetName enumType]

/-- The listing of a file, entry by entry. A name may hold line breaks, so that an entry may be
more than one line of text. -/
def entries (f : File) : Except Error (List String) := do
  let messages ← f.messages.mapM (messageBlock schema 0)
  let services ← f.services.mapM serviceBlock
  let extensions ← f.extensions.mapM extensionBlock
  let dependencies := f.dependencies.filterMap fun d => schema.file? d.fullName
  return ["# Generated code output.", "# source: " ++ f.name]
    ++ ["", "dependencies:"] ++ dependencies.flatMap dependencyBlock
    ++ ["", "messages:"] ++ messages.flatten
    ++ ["", "enums:"] ++ f.enums.flatMap (enumBlock 0)
    ++ ["", "services:"] ++ services.flatten
    ++ ["", "extensions:"] ++ extensions.flatten

/-- The listing of a file as one text. -/
def text (f : File) : Except Error String :=
  return String.join ((← entries schema f).map (· ++ "\n"))

/-- The output for a file: its listing, line by line. -/
def write (f : File) : Except Error Buffer := do
  let name := outputName f.name ".out"
  let lines := (Text.lines (← text schema f).toList).map String.ofList
  return lines.foldl Buffer.textLine { name, home := ⟨name, "", ""⟩ }

/-- Writes a listing of each file to generate. -/
def generator : Generator := Generator.perFile write

end Protolink.Listing
