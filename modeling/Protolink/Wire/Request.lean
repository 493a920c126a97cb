import Protolink.Descriptor
import Protolink.Wire.Shape

/-!
# Requests on the wire

Well-formed bytes are read field by field. Where a message is given several times though it stands
once, all its records count.
-/

namespace Protolink.Wire

/-- The records of a message that is known to be well formed. -/
def recordsOf (bs : Bytes) : Records := (records? Shape.maxDepth bs).getD []

namespace Records

/-- The messages in a list of messages. -/
def messages (rs : Records) (field : Nat) : List Records := (rs.chunks field).map recordsOf

/-- A message that stands once. -/
def message (rs : Records) (field : Nat) : Records := (messages rs field).flatten

end Records

def readField (rs : Records) : FieldDescriptor where
  name := rs.string 1
  extendee := rs.string? 2
  number := (rs.int32? 3).getD 0
  label := rs.known? 4 fun n => (Cardinality.ofLabel? n).map fun _ => n
  kind := rs.known? 5 FieldKind.ofNumber?
  typeName := rs.string 6
  oneofIndex := rs.int32? 9
  jsonName := rs.string 10
  proto3Optional := rs.bool 17

def readOneof (rs : Records) : OneofDescriptor := ⟨rs.string 1⟩

def readEnumValue (rs : Records) : EnumValueDescriptor := ⟨rs.string 1, (rs.int32? 2).getD 0⟩

def readEnum (rs : Records) : EnumDescriptor :=
  ⟨rs.string 1, (rs.messages 2).map readEnumValue⟩

/-- Reads a message without those nested in it. -/
def readDecl (rs : Records) : MessageDecl where
  name := rs.string 1
  fields := (rs.messages 2).map readField
  enums := (rs.messages 4).map readEnum
  extensions := (rs.messages 6).map readField
  deprecated := (rs.message 7).bool 3
  isMapEntry := (rs.message 7).bool 7
  oneofs := (rs.messages 8).map readOneof

/-- Reads a message in which messages are nested not deeper than `depth`. -/
def readMessage : Nat → Records → MessageDescriptor
  | 0, rs => ⟨readDecl rs, []⟩
  | depth + 1, rs => ⟨readDecl rs, (rs.messages 3).map (readMessage depth)⟩

def readMethod (rs : Records) : MethodDescriptor where
  name := rs.string 1
  input := rs.string 2
  output := rs.string 3
  clientStreaming := rs.bool 5
  serverStreaming := rs.bool 6

def readService (rs : Records) : ServiceDescriptor :=
  ⟨rs.string 1, (rs.messages 2).map readMethod⟩

def readComment (rs : Records) : CommentDescriptor where
  path := rs.int32s 1
  leading := rs.string 3
  trailing := rs.string 4
  detached := rs.texts 6

def readSchemaFile (rs : Records) : FileDescriptor where
  name := rs.string 1
  package := rs.string 2
  dependencies := rs.texts 3
  messages := (rs.messages 4).map (readMessage Shape.maxDepth)
  enums := (rs.messages 5).map readEnum
  services := (rs.messages 6).map readService
  extensions := (rs.messages 7).map readField
  syntaxName := rs.string 12
  comments := ((rs.message 9).messages 1).map readComment

/-- The request that bytes hold, if they are well formed. -/
def decodeRequest (bs : Bytes) : Option Request :=
  if Shape.accepts Shape.maxDepth .request bs then
    let rs := recordsOf bs
    some {
      filesToGenerate := rs.texts 1
      parameter := rs.string 2
      files := (rs.messages 15).map readSchemaFile }
  else none

end Protolink.Wire
