import Protolink.Declare
import Protolink.Link

/-!
# Schemas

A schema is a registry together with the files declared in it. It grows file by file; references
are followed file by file, too, and read through the schema, where a symbol leads to its node.
-/

namespace Protolink

structure Schema where
  registry : Registry Symbol := {}
  /-- The registered files, in the order of their registration. -/
  files : List File := []

namespace Schema

/-! ## Growing a schema -/

/-- Declares a file. If that fails, what was registered before the fault stays. -/
def declare (scheme : ImportScheme) (generate : Bool) (d : FileDescriptor) :
    EStateM Error Schema Unit := fun s =>
  match d.declare scheme generate (s.files, s.registry) with
  | .ok () (files, registry) => .ok () ⟨registry, files⟩
  | .error e (files, registry) => .error e ⟨registry, files⟩

/-- Links every file in turn. -/
def linkAll : EStateM Error Schema Unit := fun s =>
  match Link.each (fun _ => true) (File.link s.registry) s.files with
  | .ok () files => .ok () { s with files }
  | .error e files => .error e { s with files }

/-- Links the file that is registered under a name; without one, nothing happens. -/
def linkFile (name : String) : EStateM Error Schema Unit := fun s =>
  match s.registry.lookup .file name with
  | none => .ok () s
  | some file =>
    match Link.each (fun f => f.name == file.fullName) (File.link s.registry) s.files with
    | .ok () files => .ok () { s with files }
    | .error e files => .error e { s with files }

/-- Registers the declaration found under one key under another one. -/
def registerAs (kind : DeclKind) (name key : String) : EStateM Error Schema Unit := fun s =>
  match s.registry.lookup kind name with
  | none => .ok () s
  | some symbol =>
    match s.registry.register kind key symbol with
    | .ok registry => .ok () { s with registry }
    | .error e => .error e s

/-- Registers the declaration found under a key once more, under its own name. -/
def reregister (kind : DeclKind) (name : String) : EStateM Error Schema Unit := fun s =>
  match s.registry.lookup kind name with
  | none => .ok () s
  | some symbol =>
    match s.registry.declare symbol with
    | .ok registry => .ok () { s with registry }
    | .error e => .error e s

/-! ## From symbols to nodes -/

variable (s : Schema)

def file? (name : String) : Option File := s.files.find? (·.name == name)

def message? (fullName : String) : Option Message :=
  (s.files.flatMap (·.allMessages)).find? (·.fullName == fullName)

def enum? (fullName : String) : Option EnumType :=
  (s.files.flatMap (·.allEnums)).find? (·.fullName == fullName)

def service? (fullName : String) : Option Service :=
  (s.files.flatMap (·.ownServices)).find? (·.fullName == fullName)

def extension? (fullName : String) : Option Field :=
  (s.files.flatMap (·.allExtensions)).find? (·.fullName == fullName)

/-- The files that output is wanted for, in the order of the schema. -/
def filesToGenerate : List File := s.files.filter (·.generate)

/-! ## Maps -/

/-- The map entry that is the type of a field, if it is one. -/
def mapEntry? (f : Field) : Except Error (Option Message) := do
  match ← f.message.get with
  | none => return none
  | some symbol => return (s.message? symbol.fullName).filter (·.isMapEntry)

/-- Whether a field is a map. -/
def isMap (f : Field) : Except Error Bool := return (← s.mapEntry? f).isSome

/-- Whether a field is a list. A field that holds at most one value is none, whatever its type. -/
def isList (f : Field) : Except Error Bool :=
  if f.cardinality = .repeated then return !(← s.isMap f) else return false

/-- The field at a place of the entry that a map consists of. -/
def entryField? (f : Field) (i : Nat) : Except Error (Option Field) := do
  match ← s.mapEntry? f with
  | none => return none
  | some entry =>
    match entry.fields[i]? with
    | some g => return some g
    | none => throw .mapEntryTooShort

/-- The field for the keys of a map. -/
def mapKey? (f : Field) : Except Error (Option Field) := s.entryField? f 0

/-- The field for the values of a map. -/
def mapValue? (f : Field) : Except Error (Option Field) := s.entryField? f 1

end Schema

/-! ## The schema of a request -/

namespace Schema

/-- Declares all files of a request, then links them, so that they may refer to each other in any
order, and then looks for the files to generate. -/
def assemble (scheme : ImportScheme) (files : List FileDescriptor) (wanted : List String) :
    EStateM Error Schema Unit := do
  files.forM fun d => declare scheme (wanted.contains d.name) d
  linkAll
  let s ← get
  wanted.forM fun name =>
    if (s.registry.lookup .file name).isSome then pure () else throw (.unknownFileToGenerate name)

/-- The linked schema of a request, or the first fault in it. -/
def ofFiles (scheme : ImportScheme) (files : List FileDescriptor) (wanted : List String) :
    Except Error Schema :=
  match assemble scheme files wanted {} with
  | .ok () s => .ok s
  | .error e _ => .error e

end Schema

end Protolink
