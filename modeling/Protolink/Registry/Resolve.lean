import Protolink.Name
import Protolink.Registry

/-!
# Resolving type names

A type name is looked up under each of its candidates, from the innermost scope outwards, and for
each candidate in every table asked for. The first entry found is its meaning.
-/

namespace Protolink.Registry

variable {α : Type}

/-- The entry under a key in the first of several tables that has one. -/
def lookupAny (r : Registry α) (kinds : List DeclKind) (key : String) : Option α :=
  kinds.findSome? (r.lookup · key)

/-- The meaning of a type name that is used in a scope. -/
def resolve (r : Registry α) (kinds : List DeclKind) (scope typeName : String) : Option α :=
  (Name.candidates scope typeName).findSome? (r.lookupAny kinds)

/-- The tables that hold types, in the order in which they are asked. -/
def typeKinds : List DeclKind := [.enum, .message]

end Protolink.Registry
