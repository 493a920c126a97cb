import Protolink.Error
import Protolink.ImportPath

/-!
# Output buffers

A buffer collects the lines of one output file. Identifiers of other modules are written with the
alias of their module, and the modules that were mentioned are imported at a marked place, also
those that were mentioned after the mark was set.
-/

namespace Protolink

structure Buffer where
  name : String
  /-- The module that the file is. -/
  home : ImportPath
  lines : List String := []
  /-- The foreign modules mentioned so far, in the order of their first mention. -/
  imports : List ImportPath := []
  /-- How many lines stand before the import statements. -/
  mark : Option Nat := none
  indent : Nat := 0
  /-- What is done to the text of the file at the end. -/
  finish : String → String := id

namespace Buffer

/-- A piece of a line. -/
inductive Piece where
  | text (s : String)
  | ident (i : Ident)
deriving DecidableEq, Repr

/-- The name of an identifier in the file. -/
def spelling (b : Buffer) (i : Ident) : String :=
  if i.path = b.home then i.name else b.home.aliasFor i.path ++ "." ++ i.name

/-- Notes that an identifier is mentioned. -/
def mention (b : Buffer) (i : Ident) : Buffer :=
  if i.path = b.home ∨ i.path ∈ b.imports then b
  else { b with imports := b.imports ++ [i.path] }

/-- A piece as it stands in the file. -/
def pieceText (b : Buffer) : Piece → String
  | .text s => s
  | .ident i => b.spelling i

/-- Notes the identifier in a piece. -/
def mentionPiece (b : Buffer) : Piece → Buffer
  | .text _ => b
  | .ident i => b.mention i

/-- Adds a line; an empty line is not indented. -/
def line (b : Buffer) (pieces : List Piece) : Buffer :=
  let text := String.join (pieces.map b.pieceText)
  let text := if text = "" then text else String.ofList (List.replicate b.indent ' ') ++ text
  let b := pieces.foldl mentionPiece b
  { b with lines := b.lines ++ [text] }

/-- Adds a line of plain text. -/
def textLine (b : Buffer) (text : String) : Buffer := b.line [.text text]

/-- Indents the lines to come, by so many blanks. -/
def setIndent (b : Buffer) (level : Int) : Except Error Buffer :=
  if level < 0 then .error .negativeIndent else .ok { b with indent := level.toNat }

/-- Marks the place of the import statements, and forgets an earlier mark. -/
def markImports (b : Buffer) : Buffer := { b with mark := some b.lines.length }

section Final

variable [WorkingDirectory]

def statements (b : Buffer) : List String := b.imports.map b.home.statement

/-- The lines of the file, with the import statements at the mark. -/
def finalLines (b : Buffer) : List String :=
  match b.mark with
  | none => b.lines
  | some n => b.lines.take n ++ b.statements ++ b.lines.drop n

/-- The text of the file. -/
def content (b : Buffer) : String := b.finish ("\n".intercalate b.finalLines)

end Final

end Buffer

/-- A finished file. -/
structure OutputFile where
  name : String
  content : String
deriving DecidableEq, Repr

def Buffer.file [WorkingDirectory] (b : Buffer) : OutputFile := ⟨b.name, b.content⟩

namespace Buffer

/-! ## Runs -/

/-- What can be done with a buffer, one step at a time. -/
inductive Step where
  | line (pieces : List Piece)
  | spell (i : Ident)
  | setIndent (level : Int)
  | markImports
  | finish (f : String → String)
  | imports
  | statements
  | content
  | file

/-- What a step answers. -/
inductive Answer where
  | nothing
  | text (s : String)
  | texts (ss : List String)
  | level (n : Nat)
  | modules (ps : List ImportPath)
  | file (f : OutputFile)

variable [WorkingDirectory]

/-- Does a step. -/
def perform (b : Buffer) : Step → Except Error (Answer × Buffer)
  | .line pieces => .ok (.nothing, b.line pieces)
  | .spell i => .ok (.text (b.spelling i), b.mention i)
  | .setIndent level => do return (.level b.indent, ← b.setIndent level)
  | .markImports => .ok (.nothing, b.markImports)
  | .finish f => .ok (.nothing, { b with finish := f })
  | .imports => .ok (.modules b.imports, b)
  | .statements => .ok (.texts b.statements, b)
  | .content => .ok (.text b.content, b)
  | .file => .ok (.file b.file, b)

/-- Does several steps; a step that fails changes nothing, and the next one follows. -/
def run (b : Buffer) : List Step → List (Except Error Answer) × Buffer
  | [] => ([], b)
  | step :: steps =>
    match b.perform step with
    | .error e => let rest := b.run steps; (.error e :: rest.1, rest.2)
    | .ok (answer, b') => let rest := b'.run steps; (.ok answer :: rest.1, rest.2)

end Buffer

end Protolink
