import Protolink.ImportPath
import Protolink.Name
import Protolink.Registry

/-!
# Symbols

A symbol stands for a declaration: it says where the declaration comes from and what it is called.
The registry of a schema holds symbols, and so do resolved references.
-/

namespace Protolink

/-- The file that a declaration comes from, and the module generated for it. -/
structure Origin where
  name : String
  package : String
  path : ImportPath
deriving DecidableEq, Repr, Inhabited

structure Symbol where
  kind : DeclKind
  /-- The full name; of a file, its name. -/
  fullName : String
  origin : Origin
  /-- The full name of the message around the declaration, if there is one. -/
  parent : Option String := none
deriving DecidableEq, Repr

namespace Symbol

/-- The identifier that generated code knows a message, an enum or a service by. -/
def ident (s : Symbol) : Ident := s.origin.path.ident (Name.relative s.fullName s.origin.package)

/-- Whether a declaration is a message or an enum inside a message. -/
def isNestedType (s : Symbol) : Bool :=
  (s.kind == .message || s.kind == .enum) && s.parent.isSome

/-- Whether a declaration belongs to a package; `topLevelOnly` leaves nested types out. -/
def isIn (package : String) (topLevelOnly : Bool) (s : Symbol) : Bool :=
  s.origin.package == package && !(topLevelOnly && s.isNestedType)

end Symbol

namespace Registry

/-- Registers a declaration under its own name. -/
def declare (r : Registry Symbol) (s : Symbol) : Except Error (Registry Symbol) :=
  r.register s.kind s.fullName s

/-- The declarations of a kind that belong to a package. -/
def byPackage (r : Registry Symbol) (kind : DeclKind) (package : String)
    (topLevelOnly : Bool := false) : List Symbol :=
  (r.all kind).filter (·.isIn package topLevelOnly)

/-- The names of the registered declarations, table by table. -/
def census (r : Registry Symbol) : List (DeclKind × List String) :=
  DeclKind.all.map fun kind => (kind, (r.all kind).map (·.fullName))

end Registry

end Protolink
