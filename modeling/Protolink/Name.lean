import Protolink.Text.Split

/-!
# Dotted names

The full name of a declaration is the dotted list of its package, the declarations around it and
its own name. A relative name is looked up from the inside out, one scope after the other.
-/

namespace Protolink.Name

/-- The full name of `name` in `scope`; the empty scope adds nothing. -/
def join (scope name : String) : String :=
  if scope = "" then name else scope ++ "." ++ name

/-- A full name without the package in front. -/
def relative (fullName package : String) : String :=
  let front := package.toList ++ ['.']
  if package ≠ "" ∧ front.isPrefixOf fullName.toList then
    String.ofList (fullName.toList.drop front.length)
  else fullName

/-- The suffixes of a text that follow a dot, the longest first. -/
def afterDots : List Char → List (List Char)
  | [] => []
  | c :: cs => if c = '.' then cs :: afterDots cs else afterDots cs

/-- A name and the names of the scopes around it: its non-empty prefixes that end before a dot, the
longest first. -/
def scopes (name : String) : List String :=
  ((name.toList.reverse :: afterDots name.toList.reverse).filter (· ≠ [])).map
    fun cs => String.ofList cs.reverse

/-- The full names that a type name may stand for in a scope, in the order in which they are tried.
A leading dot marks a full name. -/
def candidates (scope typeName : String) : List String :=
  match typeName.toList with
  | '.' :: full => [String.ofList full]
  | _ => (scopes scope).map (· ++ "." ++ typeName) ++ [typeName]

end Protolink.Name
