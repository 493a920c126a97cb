import Protolink.Path

/-!
# Modules and how they import each other

An import path names the module that an identifier lives in: a file below the output root, or a
module of an external package. From the point of view of a home module, every foreign module has
an alias, under which it is imported, and a specifier, which the import statement gives.
-/

namespace Protolink

structure ImportPath where
  /-- Path of the module below the output root. -/
  filename : String
  /-- The external package the module belongs to; empty for local modules. -/
  package : String := ""
  /-- Path of the module inside its package. -/
  pathUnderPackage : String := ""
deriving DecidableEq, Repr, Inhabited

/-- A named declaration of a module. Nested declarations have dotted names. -/
structure Ident where
  path : ImportPath
  name : String
deriving DecidableEq, Repr

/-- Makes a text usable as an alias: each of the characters `/ . - @` becomes an underscore. -/
def aliasSafe (s : String) : String :=
  String.ofList (s.toList.map fun c => if c ∈ ['/', '.', '-', '@'] then '_' else c)

namespace ImportPath

/-- A module that is reached through its package only. -/
def external (package : String) (pathUnderPackage : String := "") : ImportPath :=
  ⟨"", package, pathUnderPackage⟩

def ident (p : ImportPath) (name : String) : Ident := ⟨p, name⟩

/-- The file name without its extension; `.d.ts` counts as one extension. -/
def stem (p : ImportPath) : String :=
  let name := p.filename.toList
  String.ofList ((Text.dropEnding? ".d.ts".toList name).getD (Path.stem name))

/-- Whether `home` reaches `foreign` by a relative path: both are of one package, or `foreign` is
of none, and its file is known. -/
def reaches (home foreign : ImportPath) : Bool :=
  (foreign.package == "" || foreign.package == home.package) && foreign.filename != ""

/-- The name under which `home` imports `foreign`. -/
def aliasFor (home foreign : ImportPath) : String :=
  if home.reaches foreign then "_" ++ aliasSafe foreign.stem
  else if foreign.pathUnderPackage = "" then aliasSafe foreign.package
  else aliasSafe foreign.package ++ "__" ++ aliasSafe foreign.pathUnderPackage

variable [WorkingDirectory]

/-- The components of the way from the directory of `home` to `foreign`. It is found between the
places of both below the root. -/
def route (home foreign : ImportPath) : List Path.Component :=
  Path.relative (Path.absolute (Path.directory home.filename.toList))
    (Path.absolute foreign.stem.toList)

/-- The text that leads from `home` to `foreign` in an import statement. A relative one starts with
a dot, so that it is not taken for a package. -/
def specifier (home foreign : ImportPath) : String :=
  if home.reaches foreign then
    let way := home.route foreign
    let text := String.ofList (Path.written way)
    if way.head? = some Path.up then text else "./" ++ text
  else if foreign.pathUnderPackage = "" then foreign.package
  else foreign.package ++ "/" ++ foreign.pathUnderPackage

/-- The statement by which `home` imports `foreign`. -/
def statement (home foreign : ImportPath) : String :=
  "import * as " ++ home.aliasFor foreign ++ " from \"" ++ home.specifier foreign ++ "\";"

end ImportPath

end Protolink
