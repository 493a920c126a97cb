import Protolink.FieldKind

/-!
# What can go wrong

One constructor per cause, and one function that words them all.
-/

namespace Protolink

/-- The kinds of declarations that have a table of their own. -/
inductive DeclKind where
  | file | message | enum | service | extension
deriving DecidableEq, Repr

namespace DeclKind

def all : List DeclKind := [file, message, enum, service, extension]

def name : DeclKind → String
  | file => "file"
  | message => "message"
  | enum => "enum"
  | service => "service"
  | extension => "extension"

end DeclKind

inductive Error where
  /-- A file descriptor without a name. -/
  | namelessFile
  /-- A declaration without a name; `what` says what it is and `place` where it stands. -/
  | nameless (what place : String)
  | missingNumber (field : String)
  | missingType (field : String)
  | unrecognizedLabel (field : String) (label : Int)
  | oneofIndexOutOfRange (message field : String) (index : Int) (declared : Nat)
  /-- A second declaration of one kind under one key. -/
  | duplicate (kind : DeclKind) (key : String)
  | unknownDependency (file dependency : String)
  | unknownFileToGenerate (file : String)
  | unknownType (typeName field place : String)
  | missingTypeName (field : String) (kind : FieldKind)
  | unknownExtendee (extendee field place : String)
  | unknownMethodType (method role typeName : String)
  /-- A reference that was to be set a second time. -/
  | alreadyResolved (owner what : String)
  /-- A reference that was read before it was set. -/
  | notYetResolved (owner what : String)
  /-- A map entry without a key or without a value. -/
  | mapEntryTooShort
  | negativeIndent
  | noFiles
  | noFilesToGenerate
  /-- Request bytes that are no message. -/
  | undecodable
  /-- A failure of a generator's own. -/
  | generator (text : String)
deriving DecidableEq, Repr

namespace Error

/-- Whether an error is a fault of the descriptors: they do not make a schema. -/
def isDescriptorFault : Error → Bool
  | namelessFile | nameless .. | missingNumber _ | missingType _ | unrecognizedLabel ..
  | oneofIndexOutOfRange .. | duplicate .. | unknownDependency .. | unknownFileToGenerate _
  | unknownType .. | missingTypeName .. | unknownExtendee .. | unknownMethodType .. => true
  | alreadyResolved .. | notYetResolved .. | mapEntryTooShort | negativeIndent | noFiles
  | noFilesToGenerate | undecodable | generator _ => false

/-- Whether an error is about a value that is not allowed where it is given. -/
def isBadValue : Error → Bool
  | negativeIndent | noFiles | noFilesToGenerate => true
  | _ => false

/-- The wording of an error. -/
def message : Error → String
  | namelessFile => "file descriptor has no name"
  | nameless what place => place ++ ": " ++ what ++ " has no name"
  | missingNumber field => "field " ++ field ++ ": number not populated"
  | missingType field => "field " ++ field ++ ": type not populated"
  | unrecognizedLabel field label =>
    "field " ++ field ++ ": unrecognized label " ++ toString label
  | oneofIndexOutOfRange message field index declared =>
    message ++ ": field '" ++ field ++ "' has oneof index " ++ toString index
      ++ ", but the message declares " ++ toString declared ++ " oneof(s)"
  | duplicate kind key =>
    "Failed to register " ++ kind.name ++ " '" ++ key ++ "': already registered."
  | unknownDependency file dependency =>
    "file " ++ file ++ ": failed to resolve dependency " ++ dependency
  | unknownFileToGenerate file => "file to generate " ++ file ++ " is not in the request"
  | unknownType typeName field place =>
    "No message or enum found for type_name=" ++ typeName ++ " of field " ++ field
      ++ " in " ++ place ++ "."
  | missingTypeName field kind =>
    "field " ++ field ++ ": " ++ kind.name ++ " field without type_name"
  | unknownExtendee extendee field place =>
    "Extendee not found in type registry: extendee=" ++ extendee ++ " of " ++ field
      ++ " in " ++ place ++ "."
  | unknownMethodType method role typeName =>
    "Method " ++ method ++ ": " ++ role ++ " type '" ++ typeName ++ "' not registered"
  | alreadyResolved owner what => owner ++ ": " ++ what ++ " already resolved"
  | notYetResolved owner what => owner ++ ": " ++ what ++ " read before the resolve pass"
  | mapEntryTooShort => "list index out of range"
  | negativeIndent => "indent must be greater or equal zero"
  | noFiles => "no proto files provided"
  | noFilesToGenerate => "no files to generate provided"
  | undecodable => "<DecodeError>"
  | generator text => text

end Error

end Protolink
