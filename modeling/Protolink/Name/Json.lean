import Protolink.Text.Upper

/-!
# Names of fields in JSON

The name of a field is written in camel case, and a word that JavaScript reserves gets a prefix.
-/

namespace Protolink.Name

/-- Camel case at the end of a text: `run` is the last stretch without letters and digits, read
backwards. The last character of it that is no line feed and is not the first is kept and raised,
and what stands before it goes. -/
def camelTail (run : List Char) : List Char :=
  let feeds := run.takeWhile (· == '\n')
  match run.dropWhile (· == '\n') with
  | c :: _ :: _ => Text.upperChar c ++ feeds
  | _ => run.reverse

/-- Camel case of a text that follows a stretch without letters and digits; `run` is that stretch,
read backwards. A letter or digit after a stretch is raised, and the stretch goes. -/
def camelFrom : List Char → List Char → List Char
  | run, [] => camelTail run
  | run, c :: cs =>
    if c.isAlphanum then (if run = [] then [c] else Text.upperChar c) ++ camelFrom [] cs
    else camelFrom (c :: run) cs

/-- Drops each stretch of characters other than ASCII letters and digits, and raises the character
after it. -/
def camelCase (name : String) : String := String.ofList (camelFrom [] name.toList)

/-- The words of JavaScript that cannot name a property of a generated message. -/
def reserved : List String :=
  ["abstract", "boolean", "break", "byte", "case", "catch", "char", "class", "const", "continue",
   "debugger", "default", "delete", "do", "double", "else", "enum", "export", "extends", "false",
   "final", "finally", "float", "for", "function", "goto", "if", "implements", "import", "in",
   "instanceof", "int", "interface", "long", "native", "new", "null", "package", "private",
   "protected", "public", "return", "short", "static", "super", "switch", "synchronized", "this",
   "throw", "throws", "transient", "try", "typeof", "var", "void", "volatile", "while", "with"]

/-- The name of a field in JSON. -/
def json (name : String) : String :=
  let camel := camelCase name
  if camel ∈ reserved then "pb_" ++ camel else camel

end Protolink.Name
