/-!
# Lines of a text

A text is cut at every line boundary of Unicode and of the information separators. A final
boundary closes the last line and opens no empty one.
-/

namespace Protolink.Text

/-- A character that ends a line by itself. -/
def isLineBreak (c : Char) : Bool :=
  c ∈ ['\n', '\r', '\x0b', '\x0c', '\x1c', '\x1d', '\x1e', '\x85', '\u2028', '\u2029']

/-- The lines of a text; a carriage return and the line feed after it are one boundary. -/
def lines : List Char → List (List Char)
  | [] => []
  | '\r' :: '\n' :: cs => [] :: lines cs
  | c :: cs =>
    if isLineBreak c then [] :: lines cs
    else match lines cs with
      | [] => [[c]]
      | l :: ls => (c :: l) :: ls

end Protolink.Text
