import Protolink.Draft
import Protolink.ImportScheme
import Protolink.Name.Json

/-!
# From descriptors to nodes

Every file, message, enum, service and extension is registered before anything inside it is read.
References stay open. The first fault in reading order is the one reported: of a name that is
missing or taken, a field without number, kind or label, or a field in a oneof that is not there.
-/

namespace Protolink

/-- What is needed to know about a file in order to read its declarations. -/
structure Source where
  origin : Origin
  locations : CommentIndex

/-- The name of a declaration, which has to have one; `what` and `place` are for the error. -/
def requireName (what place name : String) : Except Error String :=
  if name = "" then .error (.nameless what place) else .ok name

namespace Source

/-- What a scope is called in errors: an empty one is the file. -/
def place (src : Source) (scope : String) : String :=
  if scope = "" then src.origin.name else scope

/-- The full name that declarations inside `parent`, or at the top level, extend. -/
def scope (src : Source) (parent : Option String) : String := parent.getD src.origin.package

/-! ## Fields -/

/-- The place of the oneof that a field says it is in. -/
def oneofPlace (owner : MessageBody) (d : FieldDescriptor) : Except Error (Option Nat) :=
  match d.oneofIndex with
  | none => .ok none
  | some i =>
    if 0 ≤ i ∧ i < owner.oneofs.length then .ok (some i.toNat)
    else .error (.oneofIndexOutOfRange owner.fullName d.name i owner.oneofs.length)

/-- The node of a field or an extension. -/
def field (src : Source) (parent : Option String) (oneof : Option Nat) (path : List Int)
    (d : FieldDescriptor) : Except Error Field := do
  let scope := src.scope parent
  let name ← requireName "field" (src.place scope) d.name
  let fullName := Name.join scope name
  if d.number ≤ 0 then throw (.missingNumber fullName)
  let some kind := d.kind | throw (.missingType fullName)
  let label := d.label.getD 0
  let some cardinality := Cardinality.ofLabel? label
    | throw (.unrecognizedLabel fullName label)
  return {
    name, fullName, kind, cardinality, parent, oneof
    jsonName := Name.json (if d.jsonName = "" then name else d.jsonName)
    number := d.number
    origin := src.origin
    location := src.locations.find path
    typeName := d.typeName
    extendeeName := d.extendee
    proto3Optional := d.proto3Optional }

/-- Adds an extension to its owner once it is registered. -/
def declareExtension {σ : Type} (src : Source) (parent : Option String) (path : List Int)
    (d : FieldDescriptor) (add : Field → σ → σ) : Draft σ Unit := do
  let extension ← Draft.require (src.field parent none path d)
  Draft.declare extension.symbol
  Draft.edit (add extension)

/-! ## Enums -/

/-- Adds a value to an enum. -/
def fillEnumValue (src : Source) (path : List Int) (i : Nat) (d : EnumValueDescriptor) :
    Draft EnumType Unit := do
  let enum ← Draft.ask id
  let name ← Draft.require (requireName "enum value" enum.fullName d.name)
  let value : EnumValue := {
    name
    fullName := Name.join src.origin.package name
    number := d.number
    location := src.locations.find (path ++ [Tag.values, i]) }
  Draft.edit fun e => { e with values := e.values ++ [value] }

/-- Registers an enum and reads its values. -/
def declareEnum {σ : Type} (src : Source) (parent : Option String) (path : List Int)
    (d : EnumDescriptor) (add : EnumType → σ → σ) : Draft σ Unit := do
  let scope := src.scope parent
  let name ← Draft.require (requireName "enum" (src.place scope) d.name)
  let enum : EnumType := {
    name, parent
    fullName := Name.join scope name
    origin := src.origin
    location := src.locations.find path }
  Draft.declare enum.symbol
  Draft.adopt add enum do
    Draft.forEach (src.fillEnumValue path) 0 d.values
    Draft.edit fun e => { e with isComplete := true }

/-! ## Messages -/

/-- Adds a oneof, still without members, to a message. -/
def fillOneof (src : Source) (path : List Int) (i : Nat) (d : OneofDescriptor) :
    Draft Message Unit := do
  let message ← Draft.ask id
  let name ← Draft.require (requireName "oneof" message.fullName d.name)
  let oneof : Oneof := {
    name
    fullName := Name.join message.fullName name
    location := src.locations.find (path ++ [Tag.oneofs, i]) }
  Draft.edit fun m => { m with oneofs := m.oneofs ++ [oneof] }

/-- Adds a field to a message and to its oneof. -/
def fillField (src : Source) (path : List Int) (i : Nat) (d : FieldDescriptor) :
    Draft Message Unit := do
  let message ← Draft.ask id
  let oneof ← Draft.require (oneofPlace message.toMessageBody d)
  let field ← Draft.require
    (src.field (some message.fullName) oneof (path ++ [Tag.fields, i]) d)
  Draft.edit fun m => { m with toMessageBody := m.addField field }

/-- Registers a message and reads what is inside it by `fill`. -/
def declareMessage {σ : Type} (src : Source) (parent : Option String) (path : List Int)
    (d : MessageDecl) (add : Message → σ → σ) (fill : Draft Message Unit) :
    Draft σ Unit := do
  let scope := src.scope parent
  let name ← Draft.require (requireName "message" (src.place scope) d.name)
  let message : Message := {
    name, parent
    fullName := Name.join scope name
    origin := src.origin
    location := src.locations.find path
    isMapEntry := d.isMapEntry
    deprecated := d.deprecated }
  Draft.declare message.symbol
  Draft.adopt add message fill

mutual

/-- Reads what is inside a message: oneofs first, because fields refer to them, then fields, nested
messages, enums and extensions. -/
def fillMessage (src : Source) (path : List Int) : MessageDescriptor → Draft Message Unit
  | ⟨d, nested⟩ => do
    Draft.forEach (src.fillOneof path) 0 d.oneofs
    Draft.forEach (src.fillField path) 0 d.fields
    fillNested src path 0 nested
    let scope ← Draft.ask (·.fullName)
    Draft.forEach (fun i e => src.declareEnum (some scope) (path ++ [Tag.enums, i]) e
      fun enum m => { m with ownEnums := m.ownEnums ++ [enum] }) 0 d.enums
    Draft.forEach (fun i x => src.declareExtension (some scope) (path ++ [Tag.extensions, i]) x
      fun extension m => { m with extensions := m.extensions ++ [extension] }) 0 d.extensions
    Draft.edit fun m => { m with isComplete := true }

/-- Registers and reads nested messages, of which the first stands at place `i`. -/
def fillNested (src : Source) (path : List Int) (i : Nat) :
    List MessageDescriptor → Draft Message Unit
  | [] => pure ()
  | d :: ds => do
    let scope ← Draft.ask (·.fullName)
    let path' := path ++ [Tag.nested, (i : Int)]
    src.declareMessage (some scope) path' d.toMessageDecl
      (fun n m => { m with nested := m.nested ++ [n] }) (fillMessage src path' d)
    fillNested src path (i + 1) ds

end

/-! ## Services -/

/-- Adds a method to a service. -/
def fillMethod (src : Source) (path : List Int) (i : Nat) (d : MethodDescriptor) :
    Draft Service Unit := do
  let service ← Draft.ask id
  let name ← Draft.require (requireName "method" service.fullName d.name)
  let method : Method := {
    name
    fullName := service.fullName ++ "." ++ name
    clientStreaming := d.clientStreaming
    serverStreaming := d.serverStreaming
    path := "/" ++ service.fullName ++ "/" ++ name
    location := src.locations.find (path ++ [Tag.methods, i])
    inputName := d.input
    outputName := d.output }
  Draft.edit fun s => { s with methods := s.methods ++ [method] }

/-- Registers a service and reads its methods. -/
def declareService (src : Source) (path : List Int) (d : ServiceDescriptor) : Draft File Unit := do
  let scope := src.scope none
  let name ← Draft.require (requireName "service" (src.place scope) d.name)
  let service : Service := {
    name
    fullName := Name.join scope name
    origin := src.origin
    location := src.locations.find path }
  Draft.declare service.symbol
  Draft.adopt (fun s f => { f with ownServices := f.ownServices ++ [s] }) service do
    Draft.forEach (src.fillMethod path) 0 d.methods
    Draft.edit fun s => { s with isComplete := true }

end Source

/-! ## Files -/

namespace FileDescriptor

/-- The module and the comments of a file. -/
def source (d : FileDescriptor) (scheme : ImportScheme) : Source :=
  ⟨⟨d.name, d.package, scheme d.name d.package⟩, CommentIndex.ofFile d⟩

/-- The node of a file, before its declarations are read. -/
def blank (d : FileDescriptor) (src : Source) (generate : Bool) : File where
  origin := src.origin
  -- Files that name no syntax have the oldest one.
  syntaxName := if d.syntaxName = "" then "proto2" else d.syntaxName
  generate := generate
  location := src.locations.find []
  dependencyNames := d.dependencies

/-- Reads the declarations of a file: messages, enums, services, extensions. -/
def fill (d : FileDescriptor) (src : Source) : Draft File Unit := do
  Draft.forEach (fun (i : Nat) m =>
    let path : List Int := [Tag.fileMessages, i]
    src.declareMessage none path m.toMessageDecl
      (fun n f => { f with ownMessages := f.ownMessages ++ [n] }) (src.fillMessage path m))
    0 d.messages
  Draft.forEach (fun i e => src.declareEnum none [Tag.fileEnums, i] e
    fun enum f => { f with ownEnums := f.ownEnums ++ [enum] }) 0 d.enums
  Draft.forEach (fun i s => src.declareService [Tag.fileServices, i] s) 0 d.services
  Draft.forEach (fun i x => src.declareExtension none [Tag.fileExtensions, i] x
    fun extension f => { f with extensions := f.extensions ++ [extension] }) 0 d.extensions
  Draft.edit fun f => { f with isComplete := true }

/-- Registers a file and reads its declarations. -/
def declare (d : FileDescriptor) (scheme : ImportScheme) (generate : Bool) :
    Draft (List File) Unit := do
  if d.name = "" then throw .namelessFile
  let src := d.source scheme
  let file := d.blank src generate
  Draft.declare file.symbol
  Draft.adopt (fun f fs => fs ++ [f]) file (d.fill src)

end FileDescriptor

end Protolink
