import Protolink.ImportPath

/-!
# Where generated modules go

A scheme chooses the module generated for a schema file, from the name and the package of the file.
-/

namespace Protolink

/-- The module generated for a file name and a package. -/
abbrev ImportScheme := String → String → ImportPath

namespace ImportScheme

/-- The name of a schema file without its extension. -/
def stem (filename : String) : String :=
  String.ofList (Text.dropEnding ".proto".toList filename.toList)

/-- Whether a package holds the well-known types. -/
def isWellKnown (package : String) : Bool :=
  package == "google.protobuf" || "google.protobuf.".toList.isPrefixOf package.toList

/-- The usual layout for JavaScript: `path/to/x.proto` becomes `path/to/x_pb.js`, and the
well-known types live in a package of their own. -/
def standard : ImportScheme := fun filename package =>
  let base := stem filename ++ "_pb"
  if isWellKnown package then ⟨base ++ ".js", "google-protobuf", base⟩
  else ⟨base ++ ".js", "", ""⟩

/-- One module beside each schema file, in the package of the file. -/
def beside : ImportScheme := fun filename package =>
  ⟨String.ofList (Text.replace ".proto".toList ".ts".toList filename.toList), package, ""⟩

/-- One external package for each package, with a module for each file. -/
def perPackage : ImportScheme := fun filename package => ⟨"", "@pb/" ++ package, filename⟩

/-- One module for everything. -/
def bundled : ImportScheme := fun _ _ => ⟨"all.ts", "", ""⟩

end ImportScheme

end Protolink
