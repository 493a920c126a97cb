/-!
# Literals

A literal is written bare where it becomes part of a line, and quoted where its kind has to show.
-/

namespace Protolink.Text

inductive Literal where
  | null
  | bool (value : Bool)
  | int (value : Int)
  | word (value : String)
deriving DecidableEq, Repr

namespace Literal

/-- The literal as part of a line. -/
def bare : Literal → String
  | null => "None"
  | bool true => "True"
  | bool false => "False"
  | int n => toString n
  | word s => s

/-- The literal with quotes around a word. Words hold no quote and no backslash. -/
def quoted : Literal → String
  | word s => "'" ++ s ++ "'"
  | l => l.bare

end Literal

end Protolink.Text
