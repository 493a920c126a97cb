import Protolink.Location
import Protolink.Slot
import Protolink.Symbol

/-!
# Nodes of the schema

The nodes are what becomes of the descriptors: they have full names and locations, and their
references are slots that a later pass fills in. A node is known by its full name; nodes refer to
one another by symbols.

A node that owns others holds every one of them that was registered. Some of these are kept out of
its lists: a node whose descriptor was not read to the end, because of an error, is never listed,
and a linked message no longer lists its map entries.
-/

namespace Protolink

/-- A field of a message, or an extension. -/
structure Field where
  name : String
  fullName : String
  jsonName : String
  number : Int
  kind : FieldKind
  cardinality : Cardinality
  origin : Origin
  /-- The message that declares the field; an extension may have none. -/
  parent : Option String
  /-- The place of the field's oneof among those of its message. -/
  oneof : Option Nat
  location : Location
  /-- The type of the field as it is spelled. -/
  typeName : String
  /-- The extended message as it is spelled, if there is a spelling. -/
  extendeeName : Option String
  proto3Optional : Bool
  enumType : Slot (Option Symbol) := ⟨fullName, "enum type", none⟩
  message : Slot (Option Symbol) := ⟨fullName, "message type", none⟩
  extendee : Slot (Option Symbol) := ⟨fullName, "extendee", none⟩
deriving DecidableEq, Repr

namespace Field

/-- The scope that the field's type names are resolved in. -/
def scope (f : Field) : String := f.parent.getD f.origin.package

/-- Where the field is declared, for errors. -/
def place (f : Field) : String := f.parent.getD ("top-level of " ++ f.origin.name)

def isExtension (f : Field) : Bool := f.extendeeName.isSome

def symbol (f : Field) : Symbol := ⟨.extension, f.fullName, f.origin, f.parent⟩

end Field

/-- A group of fields of which one is present. -/
structure Oneof where
  name : String
  fullName : String
  location : Location
  /-- The places of the group's fields among those of its message. -/
  members : List Nat := []
deriving DecidableEq, Repr

/-- A value of an enum. Its full name lives in the package and not in the enum. -/
structure EnumValue where
  name : String
  fullName : String
  number : Int
  location : Location
deriving DecidableEq, Repr

structure EnumType where
  name : String
  fullName : String
  origin : Origin
  parent : Option String
  location : Location
  values : List EnumValue := []
  isComplete : Bool := false
deriving DecidableEq, Repr

def EnumType.symbol (e : EnumType) : Symbol := ⟨.enum, e.fullName, e.origin, e.parent⟩

/-- What a message holds besides its nested messages. -/
structure MessageBody where
  name : String
  fullName : String
  origin : Origin
  parent : Option String
  location : Location
  isMapEntry : Bool
  deprecated : Bool
  fields : List Field := []
  oneofs : List Oneof := []
  /-- All enums, incomplete ones included. -/
  ownEnums : List EnumType := []
  extensions : List Field := []
  isComplete : Bool := false
  /-- Whether map entries are kept out of the list of nested messages. -/
  hidesEntries : Bool := false
deriving DecidableEq, Repr

structure Message extends MessageBody where
  /-- All nested messages, incomplete ones and map entries included. -/
  nested : List Message := []
deriving Repr

namespace MessageBody

def symbol (b : MessageBody) : Symbol := ⟨.message, b.fullName, b.origin, b.parent⟩

def enums (b : MessageBody) : List EnumType := b.ownEnums.filter (·.isComplete)

/-- Whether a message lists a nested one. -/
def lists (b nested : MessageBody) : Bool :=
  nested.isComplete && !(b.hidesEntries && nested.isMapEntry)

/-- Appends a field. If it is of a oneof, it is appended to the members of that oneof, too. -/
def addField (b : MessageBody) (f : Field) : MessageBody :=
  { b with
    fields := b.fields ++ [f]
    oneofs := match f.oneof with
      | none => b.oneofs
      | some i => b.oneofs.modify i fun o => { o with members := o.members ++ [b.fields.length] } }

/-- The fields of a oneof, in the order in which they were added. -/
def membersOf (b : MessageBody) (o : Oneof) : List Field := o.members.filterMap (b.fields[·]?)

/-- Whether a oneof is there only for a field that is explicitly optional. -/
def isSynthetic (b : MessageBody) (o : Oneof) : Bool :=
  match b.membersOf o with
  | [f] => f.proto3Optional
  | _ => false

end MessageBody

namespace Message

/-- The nested messages that are listed. -/
def messages (m : Message) : List Message := m.nested.filter fun n => m.lists n.toMessageBody

mutual

/-- A message and all messages inside it, listed or not, parents first. -/
def all : Message → List Message
  | ⟨body, nested⟩ => ⟨body, nested⟩ :: allOf nested

/-- All messages of several, listed or not, parents first. -/
def allOf : List Message → List Message
  | [] => []
  | m :: ms => m.all ++ allOf ms

end

mutual

/-- The messages listed inside a message at any depth, parents first. -/
def collect : Message → List Message
  | ⟨body, nested⟩ => collectFrom body nested

/-- Of the messages nested in `body`, the listed ones and those listed inside them. -/
def collectFrom (body : MessageBody) : List Message → List Message
  | [] => []
  | m :: ms =>
    (if body.lists m.toMessageBody then m :: m.collect else []) ++ collectFrom body ms

end

mutual

/-- The enums of a message, then those of the messages listed inside it. -/
def collectEnums : Message → List EnumType
  | ⟨body, nested⟩ => body.enums ++ collectEnumsFrom body nested

/-- The enums of the messages nested in `body` that are listed. -/
def collectEnumsFrom (body : MessageBody) : List Message → List EnumType
  | [] => []
  | m :: ms =>
    (if body.lists m.toMessageBody then m.collectEnums else []) ++ collectEnumsFrom body ms

end

end Message

structure Method where
  name : String
  fullName : String
  clientStreaming : Bool
  serverStreaming : Bool
  /-- The path of the method in a request. -/
  path : String
  location : Location
  /-- The types of the method as they are spelled. -/
  inputName : String
  outputName : String
  input : Slot Symbol := ⟨fullName, "input", none⟩
  output : Slot Symbol := ⟨fullName, "output", none⟩
deriving DecidableEq, Repr

structure Service where
  name : String
  fullName : String
  origin : Origin
  location : Location
  methods : List Method := []
  isComplete : Bool := false
deriving DecidableEq, Repr

def Service.symbol (s : Service) : Symbol := ⟨.service, s.fullName, s.origin, none⟩

structure File where
  origin : Origin
  syntaxName : String
  /-- Whether output is wanted for the file. -/
  generate : Bool
  location : Location
  /-- The names of the files that this one imports, as the descriptor gives them. -/
  dependencyNames : List String
  /-- The files that this one was found to import. -/
  dependencies : List Symbol := []
  /-- All top-level messages, enums and services, incomplete ones included. -/
  ownMessages : List Message := []
  ownEnums : List EnumType := []
  ownServices : List Service := []
  extensions : List Field := []
  isComplete : Bool := false
deriving Repr

namespace File

def name (f : File) : String := f.origin.name

def package (f : File) : String := f.origin.package

def symbol (f : File) : Symbol := ⟨.file, f.name, f.origin, none⟩

def messages (f : File) : List Message := f.ownMessages.filter (·.isComplete)

def enums (f : File) : List EnumType := f.ownEnums.filter (·.isComplete)

def services (f : File) : List Service := f.ownServices.filter (·.isComplete)

/-- All messages of a file at any depth, listed or not. -/
def allMessages (f : File) : List Message := Message.allOf f.ownMessages

/-- All enums of a file at any depth. -/
def allEnums (f : File) : List EnumType := f.ownEnums ++ f.allMessages.flatMap (·.ownEnums)

/-- All extensions of a file at any depth. -/
def allExtensions (f : File) : List Field := f.extensions ++ f.allMessages.flatMap (·.extensions)

/-- The messages listed in a file at any depth, parents first. -/
def collectMessages (f : File) : List Message := f.messages.flatMap fun m => m :: m.collect

/-- The enums of a file, then those of the messages listed in it. -/
def collectEnums (f : File) : List EnumType := f.enums ++ f.messages.flatMap (·.collectEnums)

/-- The identifier of the first message, or else enum, or else service that a file lists. -/
def firstIdent (f : File) : Option Ident :=
  match f.messages, f.enums, f.services with
  | m :: _, _, _ => some m.symbol.ident
  | [], e :: _, _ => some e.symbol.ident
  | [], [], s :: _ => some s.symbol.ident
  | [], [], [] => none

end File

end Protolink
