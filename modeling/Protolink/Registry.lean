import Protolink.Error

/-!
# The registry of declarations

A registry keeps one table per kind of declaration, and a key is taken once per table. It is the
journal of its registrations, in order; entries are never removed, so a table only grows at its
end.
-/

namespace Protolink

structure Registry.Entry (α : Type) where
  kind : DeclKind
  key : String
  value : α

structure Registry (α : Type) where
  journal : List (Registry.Entry α) := []

namespace Registry

variable {α : Type}

/-- What is registered under a key of a table. -/
def lookup (r : Registry α) (kind : DeclKind) (key : String) : Option α :=
  (r.journal.find? fun e => e.kind == kind && e.key == key).map (·.value)

/-- Registers a declaration under a key that is not taken. -/
def register (r : Registry α) (kind : DeclKind) (key : String) (value : α) :
    Except Error (Registry α) :=
  if (r.lookup kind key).isSome then .error (.duplicate kind key)
  else .ok ⟨r.journal ++ [⟨kind, key, value⟩]⟩

/-- The declarations of a kind, in the order of their registration. -/
def all (r : Registry α) (kind : DeclKind) : List α :=
  (r.journal.filter (·.kind == kind)).map (·.value)

end Registry

end Protolink
