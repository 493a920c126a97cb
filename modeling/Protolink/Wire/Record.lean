import Protolink.Wire.Varint

/-!
# Records

A message on the wire is a sequence of records. A record has a field number and a payload, whose
form is told by its tag; what the payload means is up to the reader. Groups are records between two
tags and are passed over.
-/

namespace Protolink.Wire

inductive Payload where
  | varint (n : Nat)
  | fixed64
  | bytes (bs : Bytes)
  | fixed32
deriving DecidableEq, Repr

structure Record where
  number : Nat
  payload : Payload
deriving DecidableEq, Repr

/-- What a tag introduces. -/
inductive Token where
  | record (r : Record)
  | openGroup (number : Nat)
  | closeGroup (number : Nat)
deriving DecidableEq, Repr

/-- Splits off a number of bytes, if there are so many. -/
def take? (n : Nat) (bs : Bytes) : Option (Bytes × Bytes) :=
  if n ≤ bs.length then some (bs.take n, bs.drop n) else none

namespace Token

/-- Reads what follows a tag, of which `form` are the low three bits. -/
def ofTag (number form : Nat) (bs : Bytes) : Option (Token × Bytes) :=
  match form with
  | 0 => (Varint.decode bs).map fun (n, rest) => (record ⟨number, .varint n⟩, rest)
  | 1 => (take? 8 bs).map fun (_, rest) => (record ⟨number, .fixed64⟩, rest)
  | 2 => do
    let (length, bs) ← Varint.decodeShort (UInt32.size / 2) bs
    let (content, rest) ← take? length bs
    return (record ⟨number, .bytes content⟩, rest)
  | 3 => some (openGroup number, bs)
  | 4 => some (closeGroup number, bs)
  | 5 => (take? 4 bs).map fun (_, rest) => (record ⟨number, .fixed32⟩, rest)
  | _ => none

/-- Reads a tag and what follows it. -/
def read (bs : Bytes) : Option (Token × Bytes) := do
  let (tag, rest) ← Varint.decodeShort UInt32.size bs
  ofTag (tag / 8) (tag % 8) rest

theorem length_take? {n : Nat} {bs : Bytes} {r : Bytes × Bytes} (h : take? n bs = some r) :
    r.2.length ≤ bs.length := by
  unfold take? at h
  split at h <;> cases h
  simp

theorem length_ofTag {number form : Nat} {bs rest : Bytes} {t : Token}
    (h : ofTag number form bs = some (t, rest)) : rest.length ≤ bs.length := by
  unfold ofTag at h
  split at h
  · obtain ⟨⟨n, r⟩, hd, he⟩ := Option.map_eq_some_iff.1 h
    cases he
    exact Nat.le_of_lt (Varint.length_decode hd)
  · obtain ⟨r, hd, he⟩ := Option.map_eq_some_iff.1 h
    cases he
    exact length_take? hd
  · obtain ⟨⟨n, r⟩, hd, he⟩ := Option.bind_eq_some_iff.1 h
    obtain ⟨⟨c, r'⟩, ht, he⟩ := Option.bind_eq_some_iff.1 he
    cases he
    exact Nat.le_trans (length_take? ht) (Nat.le_of_lt (Varint.length_decodeShort hd))
  · cases h
    exact Nat.le_refl _
  · cases h
    exact Nat.le_refl _
  · obtain ⟨r, hd, he⟩ := Option.map_eq_some_iff.1 h
    cases he
    exact length_take? hd
  · cases h

/-- Reading a token takes at least one byte. -/
theorem length_read {bs rest : Bytes} {t : Token} (h : read bs = some (t, rest)) :
    rest.length < bs.length := by
  obtain ⟨⟨tag, r⟩, hd, he⟩ := Option.bind_eq_some_iff.1 h
  exact Nat.lt_of_le_of_lt (length_ofTag he) (Varint.length_decodeShort hd)

/-- Reads tokens until nothing is left. -/
def readAll (bs : Bytes) : Option (List Token) :=
  if bs = [] then some []
  else
    match h : read bs with
    | none => none
    | some (t, rest) =>
      have : rest.length < bs.length := length_read h
      (readAll rest).map (t :: ·)
termination_by bs.length

/-- The records outside of groups. Groups are closed in the reverse of the order in which they are
opened, which is `groups`, the innermost first; not more than `depth` are open at a time. A message
has no field zero; inside a group, where nothing is read, the number is not looked at. -/
def records (depth : Nat) (groups : List Nat) : List Token → Option (List Record)
  | [] => if groups = [] then some [] else none
  | .record r :: ts =>
    if groups ≠ [] then records depth groups ts
    else if r.number = 0 then none
    else (records depth [] ts).map (r :: ·)
  | .openGroup n :: ts =>
    if depth ≤ groups.length ∨ (groups = [] ∧ n = 0) then none
    else records depth (n :: groups) ts
  | .closeGroup n :: ts =>
    match groups with
    | [] => none
    | g :: outer => if g = n then records depth outer ts else none

end Token

/-- The records of a message in which groups are at most `depth` deep. -/
def records? (depth : Nat) (bs : Bytes) : Option (List Record) := do
  Token.records depth [] (← Token.readAll bs)

/-! ## Reading fields

A field may be given several times. What is given last counts, and lists are collected. A payload
that has not the form of the field is passed over. -/

namespace Record

/-- The number in a record of a field. -/
def varint? (field : Nat) (r : Record) : Option Nat :=
  if r.number = field then
    match r.payload with
    | .varint n => some n
    | _ => none
  else none

/-- The bytes in a record of a field. -/
def bytes? (field : Nat) (r : Record) : Option Bytes :=
  if r.number = field then
    match r.payload with
    | .bytes bs => some bs
    | _ => none
  else none

end Record

/-- The text that bytes spell; bytes that spell none are no text. -/
def text? (bs : Bytes) : Option String := String.fromUTF8? ⟨bs.toArray⟩

/-- The records of one message. -/
abbrev Records := List Record

namespace Records

variable (rs : Records) (field : Nat)

def number? : Option Nat := (rs.filterMap (Record.varint? field)).getLast?

/-- The last number given for a field that has a meaning; others are passed over. -/
def known? {α : Type} (meaning : Int → Option α) : Option α :=
  (rs.filterMap fun r => (r.varint? field).bind fun n => meaning (Varint.toInt32 n)).getLast?

def int32? : Option Int := (number? rs field).map Varint.toInt32

def bool : Bool := (number? rs field).getD 0 != 0

def chunks : List Bytes := rs.filterMap (Record.bytes? field)

def texts : List String := (chunks rs field).filterMap text?

def string? : Option String := (texts rs field).getLast?

def string : String := (string? rs field).getD ""

/-- A list of numbers, which are given one by one, packed together, or both. -/
def int32s : List Int :=
  rs.flatMap fun r =>
    if r.number = field then
      match r.payload with
      | .varint n => [Varint.toInt32 n]
      | .bytes bs => ((Varint.decodeAll bs).getD []).map Varint.toInt32
      | _ => []
    else []

end Records

end Protolink.Wire
