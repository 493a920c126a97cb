/-!
# Kinds and cardinalities of fields
-/

namespace Protolink

/-- The kind of a field on the wire. -/
inductive FieldKind where
  | double | float | int64 | uint64 | int32 | fixed64 | fixed32 | bool | string
  | group | message | bytes | uint32 | enum | sfixed32 | sfixed64 | sint32 | sint64
deriving DecidableEq, Repr

namespace FieldKind

/-- All kinds; a kind is numbered by its place, from one. -/
def all : List FieldKind :=
  [double, float, int64, uint64, int32, fixed64, fixed32, bool, string,
   group, message, bytes, uint32, enum, sfixed32, sfixed64, sint32, sint64]

/-- The kind with a number. -/
def ofNumber? (n : Int) : Option FieldKind :=
  if n ≤ 0 then none else all[n.toNat - 1]?

def name : FieldKind → String
  | double => "double"
  | float => "float"
  | int64 => "int64"
  | uint64 => "uint64"
  | int32 => "int32"
  | fixed64 => "fixed64"
  | fixed32 => "fixed32"
  | bool => "bool"
  | string => "string"
  | group => "group"
  | message => "message"
  | bytes => "bytes"
  | uint32 => "uint32"
  | enum => "enum"
  | sfixed32 => "sfixed32"
  | sfixed64 => "sfixed64"
  | sint32 => "sint32"
  | sint64 => "sint64"

end FieldKind

/-- How many values a field holds. -/
inductive Cardinality where
  | optional | required | repeated
deriving DecidableEq, Repr

namespace Cardinality

/-- The cardinality that a label stands for. -/
def ofLabel? : Int → Option Cardinality
  | 1 => some optional
  | 2 => some required
  | 3 => some repeated
  | _ => none

def name : Cardinality → String
  | optional => "optional"
  | required => "required"
  | repeated => "repeated"

end Cardinality

end Protolink
