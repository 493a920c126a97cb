import Protolink.Text.Split

/-!
# Parameters

The parameter of a request is a list of settings between commas; a setting is a key and, after an
equals sign, a value.
-/

namespace Protolink

/-- Settings in increasing order of their keys, each key once. -/
abbrev Parameters := List (String × String)

namespace Parameters

/-- Gives a key a value, in place of the one it has. -/
def insert (key value : String) : Parameters → Parameters
  | [] => [(key, value)]
  | (k, v) :: rest =>
    if k = key then (key, value) :: rest
    else if key < k then (key, value) :: (k, v) :: rest
    else (k, v) :: insert key value rest

/-- The key and the value of a setting; without an equals sign the value is empty. -/
def setting (entry : List Char) : String × String :=
  (String.ofList (Text.beforeFirst '=' entry), String.ofList (Text.afterFirst '=' entry))

/-- Reads a parameter. Empty entries are passed over, and the last value of a key counts. -/
def parse (parameter : String) : Parameters :=
  ((Text.pieces ',' parameter.toList).filter (· ≠ [])).foldl
    (fun ps entry => ps.insert (setting entry).1 (setting entry).2) []

end Parameters

end Protolink
