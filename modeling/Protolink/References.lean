import Protolink.Plugin

/-!
# References

For each file, a module that mentions one identifier of every imported file, and two of external
packages. It shows how the modules of a schema import each other.
-/

namespace Protolink.References

/-- An identifier of an external module. -/
def identA : Ident := (ImportPath.external "@package/hello-world").ident "A"

/-- An identifier of a module below the path of an external package. -/
def identB : Ident := (ImportPath.external "hallo-welt" "my/awesome/protos_pb").ident "B"

/-- The identifiers to mention: of each imported file the first, if it has one, and the external
ones. -/
def idents (schema : Schema) (f : File) : List Ident :=
  (f.dependencies.filterMap fun d => (schema.file? d.fullName).bind (·.firstIdent))
    ++ [identA, identB]

/-- The steps that write the output for a file. -/
def steps (source : String) (mentioned : List Ident) : List Buffer.Step :=
  [.line [.text "// Code generated by protoc-gen-imports. DO NOT EDIT."],
   .line [.text "// source: ", .text source],
   .line [],
   .markImports,
   .line [],
   .line [.text "export const references = ["],
   .setIndent 2]
  ++ mentioned.map (fun i => .line [.ident i, .text ","])
  ++ [.setIndent 0, .line [.text "];"]]

variable [WorkingDirectory]

/-- The output for a file. -/
def write (schema : Schema) (f : File) : Buffer :=
  let name := outputName f.name ".imports.ts"
  let b : Buffer := { name, home := ⟨name, "", ""⟩ }
  (b.run (steps f.name (idents schema f))).2

/-- Writes the references of each file to generate. -/
def generator : Generator := Generator.perFile fun schema f => .ok (write schema f)

end Protolink.References
