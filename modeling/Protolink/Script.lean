import Protolink.Plugin

/-!
# Scripted generators

A script is a generator given step by step. Each step answers something; a step that fails ends
the script.
-/

namespace Protolink.Script

/-- A piece of a line, or the identifier of a registered declaration. -/
inductive Piece where
  | plain (p : Buffer.Piece)
  | declared (kind : DeclKind) (name : String)

inductive Step where
  | newBuffer (name : String) (home : ImportPath)
  /-- Reports an error and goes on. -/
  | report (message : String)
  /-- Fails. -/
  | fail (message : String)
  | parameters
  | files
  | buffers
  | census
  /-- Writes a line to a buffer. -/
  | line (buffer : Nat) (pieces : List Piece)
  /-- Mentions an identifier in a buffer. -/
  | spell (buffer : Nat) (piece : Piece)
  /-- Does anything else with a buffer. -/
  | buffer (buffer : Nat) (step : Buffer.Step)

inductive Answer where
  | buffer (a : Buffer.Answer)
  | settings (ps : Parameters)
  | names (ns : List String)
  | census (c : List (DeclKind × List String))

/-- What a piece stands for. A declaration that is not registered adds nothing. -/
def Piece.resolve (p : Plugin) : Piece → Buffer.Piece
  | .plain piece => piece
  | .declared kind name =>
    match p.schema.registry.lookup kind name with
    | some s => .ident s.ident
    | none => .text ""

variable [WorkingDirectory]

/-- Does a step with one buffer of a plugin. Without that buffer nothing happens. -/
def onBuffer (p : Plugin) (n : Nat) (step : Buffer.Step) : Except Error (Answer × Plugin) :=
  match p.buffers[n]? with
  | none => .ok (.buffer .nothing, p)
  | some b => do
    let (answer, b') ← b.perform step
    return (.buffer answer, { p with buffers := p.buffers.set n b' })

/-- Does a step. -/
def perform (p : Plugin) : Step → Except Error (Answer × Plugin)
  | .newBuffer name home => .ok (.buffer .nothing, p.newBuffer name home)
  | .report message => .ok (.buffer .nothing, p.report message)
  | .fail message => .error (.generator message)
  | .parameters => .ok (.settings p.parameters, p)
  | .files => .ok (.names (p.filesToGenerate.map (·.name)), p)
  | .buffers => .ok (.names (p.buffers.map (·.name)), p)
  | .census => .ok (.census p.schema.registry.census, p)
  | .line n pieces => onBuffer p n (.line (pieces.map (·.resolve p)))
  | .spell n piece =>
    match piece.resolve p with
    | .ident i => onBuffer p n (.spell i)
    | .text s => .ok (.buffer (.text s), p)
  | .buffer n step => onBuffer p n step

/-- The generator that does the steps in order. -/
def generator : List Step → Generator
  | [], p => .ok () p
  | step :: steps, p =>
    match perform p step with
    | .ok (_, p') => generator steps p'
    | .error e => .error e p

/-- The answers of the steps that are done, up to the first that fails. -/
def answers : List Step → Plugin → List Answer
  | [], _ => []
  | step :: steps, p =>
    match perform p step with
    | .ok (answer, p') => answer :: answers steps p'
    | .error _ => []

end Protolink.Script
