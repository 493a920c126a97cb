import Protolink.Node
import Protolink.Registry.Resolve

/-!
# Following references

Linking a file fills in the slots of everything that is listed in it, in a fixed order, and stops
at the first reference that has no meaning or is set already. What was filled in before stays. The
registry is only read.
-/

namespace Protolink

/-- A step that fills in a node of type `σ`, and keeps it as far as it came when it fails. -/
abbrev Link (σ : Type) := EStateM Error σ

namespace Link

variable {σ β : Type}

/-- Replaces the node, or fails and leaves it as it is. -/
def update (f : σ → Except Error σ) : Link σ Unit := fun s =>
  match f s with
  | .ok s' => .ok () s'
  | .error e => .error e s

/-- Changes the node. -/
def edit (f : σ → σ) : Link σ Unit := modify f

/-- Sets a slot of the node. -/
def set {α : Type} (slot : σ → Slot α) (put : Slot α → σ → σ) (a : α) : Link σ Unit :=
  update fun s => do
    let filled ← (slot s).set a
    return put filled s

/-- Works something out from the node, or fails. -/
def determine {α : Type} (q : σ → Except Error α) : Link σ α := fun s =>
  match q s with
  | .ok a => .ok a s
  | .error e => .error e s

/-- Works on a part of the node. -/
def within (part : σ → β) (put : β → σ → σ) (step : Link β Unit) : Link σ Unit :=
  fun s =>
    match step (part s) with
    | .ok () b => .ok () (put b s)
    | .error e b => .error e (put b s)

/-- Works on those elements of a list that are wanted, in order. -/
def each (wanted : β → Bool) (step : Link β Unit) : Link (List β) Unit
  | [] => .ok () []
  | b :: bs =>
    match (if wanted b then step b else .ok () b) with
    | .error e b' => .error e (b' :: bs)
    | .ok () b' =>
      match each wanted step bs with
      | .error e bs' => .error e (b' :: bs')
      | .ok () bs' => .ok () (b' :: bs')

end Link

variable (registry : Registry Symbol)

/-! ## Fields -/

/-- The table that the type of a field is in; fields of other kinds have no such type. -/
def FieldKind.targetKind? : FieldKind → Option DeclKind
  | .enum => some .enum
  | .message | .group => some .message
  | _ => none

namespace Field

/-- What the type of a field means. A spelling that a field's kind has no use for is ignored. -/
def target (f : Field) : Except Error (Option Symbol) :=
  match f.kind.targetKind? with
  | none => .ok none
  | some kind =>
    if f.typeName = "" then .error (.missingTypeName f.fullName f.kind)
    else match registry.resolve [kind] f.scope f.typeName with
      | some s => .ok (some s)
      | none => .error (.unknownType f.typeName f.fullName f.place)

/-- Sets the type of a field: its enum and then its message, of which at most one is there. If the
message is set already, the enum stays. -/
def setTarget (target : Option Symbol) : Link Field Unit := do
  Link.set Field.enumType (fun e f => { f with enumType := e }) (target.filter (·.kind == .enum))
  Link.set Field.message (fun m f => { f with message := m }) (target.filter (·.kind == .message))

/-- What the message that a field extends means, if the field says that it extends one. -/
def extended (f : Field) : Except Error (Option Symbol) :=
  match f.extendeeName with
  | none | some "" => .ok none
  | some extendee =>
    match registry.resolve [.message] f.scope extendee with
    | some s => .ok (some s)
    | none => .error (.unknownExtendee extendee f.fullName f.place)

/-- Sets the message that a field extends. -/
def setExtendee (extended : Option Symbol) : Link Field Unit :=
  Link.set Field.extendee (fun e f => { f with extendee := e }) extended

/-- Fills in the references of a field. -/
def link : Link Field Unit := do
  setTarget (← Link.determine (·.target registry))
  setExtendee (← Link.determine (·.extended registry))

end Field

/-! ## Messages -/

namespace MessageBody

/-- Fills in the references of a message's fields and extensions, and then hides the map entries
nested in it. -/
def link : Link MessageBody Unit := do
  Link.within (·.fields) (fun fs b => { b with fields := fs })
    (Link.each (fun _ => true) (Field.link registry))
  Link.within (·.extensions) (fun fs b => { b with extensions := fs })
    (Link.each (fun _ => true) (Field.link registry))
  Link.edit fun b => { b with hidesEntries := true }

end MessageBody

namespace Message

mutual

/-- Fills in the references inside a message: the nested messages come first, so that a map entry
is complete when it is hidden. -/
def link : Message → EStateM.Result Error Message Unit
  | ⟨body, nested⟩ =>
    match linkNested body nested with
    | .error e nested' => .error e ⟨body, nested'⟩
    | .ok () nested' =>
      match MessageBody.link registry body with
      | .error e body' => .error e ⟨body', nested'⟩
      | .ok () body' => .ok () ⟨body', nested'⟩

/-- Links those of the messages nested in `body` that are listed. -/
def linkNested (body : MessageBody) : List Message → EStateM.Result Error (List Message) Unit
  | [] => .ok () []
  | m :: ms =>
    match (if body.lists m.toMessageBody then m.link else .ok () m) with
    | .error e m' => .error e (m' :: ms)
    | .ok () m' =>
      match linkNested body ms with
      | .error e ms' => .error e (m' :: ms')
      | .ok () ms' => .ok () (m' :: ms')

end

end Message

/-! ## Methods -/

namespace Method

/-- What one of a method's types means; `role` says which. -/
def typeOf (m : Method) (scope role typeName : String) : Except Error Symbol :=
  match (if typeName = "" then none else registry.resolve [.message] scope typeName) with
  | some s => .ok s
  | none => .error (.unknownMethodType m.fullName role typeName)

/-- Sets both types of a method, one after the other. -/
def setTypes (i o : Symbol) : Link Method Unit := do
  Link.set Method.input (fun input m => { m with input }) i
  Link.set Method.output (fun output m => { m with output }) o

/-- Fills in the references of a method of the service `scope`, once both are found. -/
def link (scope : String) : Link Method Unit := do
  let input ← Link.determine fun m => m.typeOf registry scope "input" m.inputName
  let output ← Link.determine fun m => m.typeOf registry scope "output" m.outputName
  setTypes input output

end Method

/-- Fills in the references of a service's methods. -/
def Service.link : Link Service Unit := fun s =>
  Link.within (·.methods) (fun ms s => { s with methods := ms })
    (Link.each (fun _ => true) (Method.link registry s.fullName)) s

/-! ## Files -/

namespace File

/-- Appends an imported file. -/
def addDependency (name : String) (f : File) : Except Error File :=
  match registry.lookup .file name with
  | some s => .ok { f with dependencies := f.dependencies ++ [s] }
  | none => .error (.unknownDependency f.name name)

/-- Finds the files that a file imports, and fills in the references of its messages, methods and
extensions. -/
def link : Link File Unit := do
  let f ← get
  f.dependencyNames.forM fun name => Link.update (addDependency registry name)
  Link.within (·.ownMessages) (fun ms f => { f with ownMessages := ms })
    (Link.each (·.isComplete) (Message.link registry))
  Link.within (·.ownServices) (fun ss f => { f with ownServices := ss })
    (Link.each (·.isComplete) (Service.link registry))
  Link.within (·.extensions) (fun xs f => { f with extensions := xs })
    (Link.each (fun _ => true) (Field.link registry))

end File

end Protolink
