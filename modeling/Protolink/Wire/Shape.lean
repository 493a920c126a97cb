import Protolink.Wire.Record

/-!
# Shapes of messages

Which fields of the messages in a request hold texts, lists of numbers or messages again. Bytes are
accepted as a message of a shape if they are well formed down to its innermost messages, whether
anybody reads these or not. Fields that a shape does not know are passed over.
-/

namespace Protolink.Wire

/-- The messages that occur in a request. -/
inductive Shape where
  | request | version | file | message | extensionRange | range | field | oneof | enum | enumValue
  | service | method | sourceInfo | location
  | fileOptions | messageOptions | rangeOptions | fieldOptions | oneofOptions | enumOptions
  | enumValueOptions | serviceOptions | methodOptions
  | uninterpreted | namePart | declaration | features | editionDefault | featureSupport
deriving DecidableEq, Repr

/-- What the bytes of a field hold. -/
inductive Content where
  | text
  | numbers
  | message (s : Shape)
deriving DecidableEq, Repr

namespace Shape

/-- What the bytes of a field hold, if the shape says so. -/
def content : Shape → Nat → Option Content
  | request, 1 | request, 2 => some .text
  | request, 3 => some (.message version)
  | request, 15 | request, 17 => some (.message file)
  | file, 1 | file, 2 | file, 3 | file, 12 => some .text
  | file, 4 => some (.message message)
  | file, 5 => some (.message enum)
  | file, 6 => some (.message service)
  | file, 7 => some (.message field)
  | file, 8 => some (.message fileOptions)
  | file, 9 => some (.message sourceInfo)
  | file, 10 | file, 11 => some .numbers
  | message, 1 => some .text
  | message, 2 | message, 6 => some (.message field)
  | message, 3 => some (.message message)
  | message, 4 => some (.message enum)
  | message, 5 => some (.message extensionRange)
  | message, 7 => some (.message messageOptions)
  | message, 8 => some (.message oneof)
  | message, 9 => some (.message range)
  | extensionRange, 3 => some (.message rangeOptions)
  | field, 1 | field, 2 | field, 6 | field, 10 => some .text
  | field, 8 => some (.message fieldOptions)
  | oneof, 1 => some .text
  | oneof, 2 => some (.message oneofOptions)
  | enum, 1 => some .text
  | enum, 2 => some (.message enumValue)
  | enum, 3 => some (.message enumOptions)
  | enum, 4 => some (.message range)
  | enumValue, 1 => some .text
  | enumValue, 3 => some (.message enumValueOptions)
  | service, 1 => some .text
  | service, 2 => some (.message method)
  | service, 3 => some (.message serviceOptions)
  | method, 1 | method, 2 | method, 3 => some .text
  | method, 4 => some (.message methodOptions)
  | sourceInfo, 1 => some (.message location)
  | location, 1 | location, 2 => some .numbers
  | location, 3 | location, 4 | location, 6 => some .text
  | fileOptions, 50 | messageOptions, 12 | rangeOptions, 50 | fieldOptions, 21
  | oneofOptions, 1 | enumOptions, 7 | enumValueOptions, 2 | serviceOptions, 34
  | methodOptions, 35 => some (.message features)
  | rangeOptions, 2 => some (.message declaration)
  | fieldOptions, 19 => some .numbers
  | fieldOptions, 20 => some (.message editionDefault)
  | fieldOptions, 22 | enumValueOptions, 4 => some (.message featureSupport)
  | fileOptions, 999 | messageOptions, 999 | rangeOptions, 999 | fieldOptions, 999
  | oneofOptions, 999 | enumOptions, 999 | enumValueOptions, 999 | serviceOptions, 999
  | methodOptions, 999 => some (.message uninterpreted)
  | uninterpreted, 2 => some (.message namePart)
  | _, _ => none

/-- How deep messages and groups may be nested. -/
def maxDepth : Nat := 100

/-- Whether a record is well formed, where `accepts` judges the messages inside it. -/
def acceptsRecord (accepts : Shape → Bytes → Bool) (s : Shape) (r : Record) : Bool :=
  match r.payload, s.content r.number with
  | .bytes bs, some .text => (text? bs).isSome
  | .bytes bs, some .numbers => (Varint.decodeAll bs).isSome
  | .bytes bs, some (.message s') => accepts s' bs
  | _, _ => true

/-- Whether bytes are a well-formed message of a shape, nested not deeper than `depth`. -/
def accepts : Nat → Shape → Bytes → Bool
  | 0, s, bs => ((records? 0 bs).map (·.all (acceptsRecord (fun _ _ => false) s))).getD false
  | depth + 1, s, bs =>
    ((records? (depth + 1) bs).map (·.all (acceptsRecord (accepts depth) s))).getD false

end Shape

end Protolink.Wire
