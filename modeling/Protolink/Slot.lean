import Protolink.Error
import Protolink.Text.Literal

/-!
# Write-once references

A slot is empty until it is set, and it is set once. It knows whose reference it is and which, for
its errors.
-/

namespace Protolink

structure Slot (α : Type) where
  owner : String
  what : String
  value? : Option α := none
deriving DecidableEq, Repr

namespace Slot

variable {α : Type}

def isSet (s : Slot α) : Bool := s.value?.isSome

/-- Fills an empty slot. -/
def set (s : Slot α) (a : α) : Except Error (Slot α) :=
  match s.value? with
  | none => .ok { s with value? := some a }
  | some _ => .error (.alreadyResolved s.owner s.what)

/-- Reads a filled slot. -/
def get (s : Slot α) : Except Error α :=
  match s.value? with
  | none => .error (.notYetResolved s.owner s.what)
  | some a => .ok a

/-- The slot in one word, for a slot of literals. -/
def describe (s : Slot Text.Literal) : String :=
  "Slot(" ++ s.what ++ "=" ++ (s.value?.map (·.quoted)).getD "<unset>" ++ ")"

end Slot

end Protolink
