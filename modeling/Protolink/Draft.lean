import Protolink.Node

/-!
# Drafts

A draft fills in a node and registers declarations on the way. When it fails, the node stays as far
as it came, and so does the registry; an owner keeps such a node, too.
-/

namespace Protolink

/-- A step that works on a node of type `σ` and on the registry, and keeps both when it fails. -/
abbrev Draft (σ : Type) := EStateM Error (σ × Registry Symbol)

namespace Draft

variable {σ β α : Type}

/-- Goes on with a value, or fails. -/
def require : Except Error α → Draft σ α
  | .ok a => pure a
  | .error e => throw e

/-- Reads the node. -/
def ask (q : σ → α) : Draft σ α := fun s => .ok (q s.1) s

/-- Changes the node. -/
def edit (f : σ → σ) : Draft σ Unit := fun (node, registry) => .ok () (f node, registry)

/-- Registers a declaration. -/
def declare (s : Symbol) : Draft σ Unit := fun (node, registry) =>
  match registry.declare s with
  | .ok registry' => .ok () (node, registry')
  | .error e => .error e (node, registry)

/-- Drafts a new node and adds it to its owner, even if the draft fails. -/
def adopt (add : β → σ → σ) (child : β) (draft : Draft β Unit) : Draft σ Unit :=
  fun (node, registry) =>
    match draft (child, registry) with
    | .ok () (child', registry') => .ok () (add child' node, registry')
    | .error e (child', registry') => .error e (add child' node, registry')

/-- Does a step for each element of a list and its place. -/
def forEach (step : Nat → α → Draft σ Unit) : Nat → List α → Draft σ Unit
  | _, [] => pure ()
  | i, a :: as => do
    step i a
    forEach step (i + 1) as

end Draft

end Protolink
