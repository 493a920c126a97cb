import Protolink.FieldKind

/-!
# Raw descriptors

What a request says about its files, before any reference is followed. A text that is not given is
empty and a number that is not given is zero; where it matters whether something is given, it is an
option.
-/

namespace Protolink

structure FieldDescriptor where
  name : String := ""
  number : Int := 0
  label : Option Int := none
  kind : Option FieldKind := none
  /-- The message or enum that values have, as it is spelled. -/
  typeName : String := ""
  /-- The message that an extension extends, as it is spelled. -/
  extendee : Option String := none
  jsonName : String := ""
  oneofIndex : Option Int := none
  proto3Optional : Bool := false
deriving Repr

structure OneofDescriptor where
  name : String := ""
deriving Repr

structure EnumValueDescriptor where
  name : String := ""
  number : Int := 0
deriving Repr

structure EnumDescriptor where
  name : String := ""
  values : List EnumValueDescriptor := []
deriving Repr

/-- What a message descriptor holds besides its nested messages. -/
structure MessageDecl where
  name : String := ""
  fields : List FieldDescriptor := []
  enums : List EnumDescriptor := []
  extensions : List FieldDescriptor := []
  oneofs : List OneofDescriptor := []
  isMapEntry : Bool := false
  deprecated : Bool := false
deriving Repr

structure MessageDescriptor extends MessageDecl where
  nested : List MessageDescriptor := []
deriving Repr

structure MethodDescriptor where
  name : String := ""
  input : String := ""
  output : String := ""
  clientStreaming : Bool := false
  serverStreaming : Bool := false
deriving Repr

structure ServiceDescriptor where
  name : String := ""
  methods : List MethodDescriptor := []
deriving Repr

/-- The comments at one path of a file. -/
structure CommentDescriptor where
  path : List Int := []
  leading : String := ""
  trailing : String := ""
  detached : List String := []
deriving Repr

structure FileDescriptor where
  name : String := ""
  package : String := ""
  dependencies : List String := []
  messages : List MessageDescriptor := []
  enums : List EnumDescriptor := []
  services : List ServiceDescriptor := []
  extensions : List FieldDescriptor := []
  syntaxName : String := ""
  comments : List CommentDescriptor := []
deriving Repr

/-- What a plugin is asked to do. -/
structure Request where
  files : List FileDescriptor := []
  filesToGenerate : List String := []
  parameter : String := ""
deriving Repr

end Protolink
