import Protolink.Proofs.Outline

/-!
# The template of a listing

A listing is written by a template: texts, values, and tags for loops and conditions.  Tags would
leave blank lines behind, so texts are trimmed next to them.  The line feed behind a tag is part of
the tag, a tag that stands on a line of its own takes the blanks in front of it, and a tag with a
dash takes all the blank space in front of it.  What a text is trimmed to depends on its neighbours
alone, so the line feed that ends the block of a message is the only one that is left of two,
however deep the message is nested.

Main statement: `Listing.render_listingTemplate`.
-/

namespace Protolink

/-- What a text of a template is next to. -/
inductive Edge where
  /-- The beginning or the end. -/
  | border
  | value
  | tag
  /-- A tag with a dash. -/
  | dash
deriving DecidableEq, Repr

namespace Edge

/-- What is left of a text behind an edge. -/
def behind : Edge → List Char → List Char
  | tag, '\n' :: cs | dash, '\n' :: cs => cs
  | _, cs => cs

/-- Whether what is left of a text behind an edge is at the beginning of a line. -/
def startsLine : Edge → List Char → Bool
  | border, _ => true
  | value, _ => false
  | tag, cs | dash, cs => cs.head? == some '\n'

/-- What is left of a text in front of an edge; the text may be at the beginning of a line.  Blank
space is of ASCII, as templates have no other. -/
def before (starts : Bool) (cs : List Char) : Edge → List Char
  | border | value => cs
  | tag =>
    let rest := (cs.reverse.dropWhile fun c => c.isWhitespace && c != '\n').reverse
    if rest.getLast? = some '\n' ∨ rest = [] ∧ starts then rest else cs
  | dash => (cs.reverse.dropWhile Char.isWhitespace).reverse

end Edge

/-- A text between two edges, as it is rendered. -/
def trimmed (left right : Edge) (s : String) : String :=
  String.ofList (right.before (left.startsLine s.toList) (left.behind s.toList))

/-- A template for things of some type. -/
inductive Template : Type → Type 1 where
  | done {α : Type} : Template α
  | text {α : Type} (s : String) (rest : Template α) : Template α
  | value {α : Type} (print : α → Except Error String) (rest : Template α) : Template α
  /-- A loop, and the edge that its body has at the end. -/
  | loop {α β : Type} (items : α → List β) (body : Template β) (close : Edge) (rest : Template α) :
    Template α
  | cond {α : Type} (test : α → Except Error Bool) (body rest : Template α) : Template α

namespace Template

variable {α β : Type}

/-- The edge at which a template begins, if `right` is what follows it. -/
def first (right : Edge) : Template α → Edge
  | done => right
  | text .. | value .. => .value
  | loop .. | cond .. => .tag

/-- The texts of things, one after the other. -/
def joined (print : α → Except Error String) (xs : List α) : Except Error String :=
  (xs.mapM print).map String.join

/-- Renders a template between two edges. -/
def render {α : Type} (left right : Edge) : Template α → α → Except Error String
  | done, _ => return ""
  | text s rest, x => return trimmed left (rest.first right) s ++ (← rest.render .value right x)
  | value print rest, x => return (← print x) ++ (← rest.render .value right x)
  | loop items body close rest, x =>
    return (← joined (body.render .tag close) (items x)) ++ (← rest.render .tag right x)
  | cond test body rest, x => do
    let part ← if ← test x then body.render .tag .tag x else pure ""
    return part ++ (← rest.render .tag right x)

/-- A value that can always be printed. -/
def put (print : α → String) (rest : Template α) : Template α := value (fun x => .ok (print x)) rest

variable {left right : Edge} {rest : Template α} {x : α}

@[simp] theorem render_done : done.render left right x = .ok "" := rfl

@[simp] theorem render_text (s : String) : (text s rest).render left right x =
    (rest.render .value right x).map (trimmed left (rest.first right) s ++ ·) := rfl

@[simp] theorem render_put (print : α → String) : (put print rest).render left right x =
    (rest.render .value right x).map (print x ++ ·) := rfl

@[simp] theorem render_value (print : α → Except Error String) :
    (value print rest).render left right x =
      (print x).bind fun s => (rest.render .value right x).map (s ++ ·) := rfl

@[simp] theorem render_loop (items : α → List β) (body : Template β) (close : Edge) :
    (loop items body close rest).render left right x =
      (joined (body.render .tag close) (items x)).bind fun part =>
        (rest.render .tag right x).map (part ++ ·) := rfl

@[simp] theorem render_cond (test : α → Except Error Bool) (body : Template α) :
    (cond test body rest).render left right x =
      ((test x).bind fun b => if b then body.render .tag .tag x else .ok "").bind fun part =>
        (rest.render .tag right x).map (part ++ ·) := by
  rw [render]
  rcases test x with e | (- | -) <;> rfl

@[simp] theorem first_done : (done : Template α).first right = right := rfl

@[simp] theorem first_value (print : α → Except Error String) :
    (value print rest).first right = .value := rfl

@[simp] theorem first_put (print : α → String) : (put print rest).first right = .value := rfl

@[simp] theorem first_loop (items : α → List β) (body : Template β) (close : Edge) :
    (loop items body close rest).first right = .tag := rfl

@[simp] theorem first_cond (test : α → Except Error Bool) (body : Template α) :
    (cond test body rest).first right = .tag := rfl

end Template

/-! ## Trimming -/

section Trimming

variable (s : String) (left right : Edge) (cs : List Char) (starts : Bool)

@[simp] theorem toList_trimmed : (trimmed left right s).toList =
    right.before (left.startsLine s.toList) (left.behind s.toList) := String.toList_ofList

@[simp] theorem behind_tag : Edge.behind .tag ('\n' :: cs) = cs := rfl

@[simp] theorem behind_value : Edge.behind .value cs = cs := by
  unfold Edge.behind
  split <;> first | contradiction | rfl

@[simp] theorem before_value : Edge.before starts cs .value = cs := rfl

@[simp] theorem before_border : Edge.before starts cs .border = cs := rfl

/-- A text that ends a line keeps all of it in front of a tag. -/
@[simp] theorem before_tag (h : cs.getLast? = some '\n') : Edge.before starts cs .tag = cs := by
  obtain ⟨init, rfl⟩ := List.getLast?_eq_some_iff.mp h
  simp [Edge.before]

@[simp] theorem before_tag_singleton : Edge.before starts ['\n'] .tag = ['\n'] :=
  before_tag _ starts rfl

/-- Between tags nothing is left of a line feed. -/
@[simp] theorem before_tag_nil : Edge.before starts [] .tag = [] := by
  cases starts <;> rfl

/-- In front of a dash nothing is left of a line feed. -/
@[simp] theorem before_dash : Edge.before starts ['\n'] .dash = [] := rfl

end Trimming

namespace Listing

open Template

/-! ## The template -/

/-- A thing that is listed at some level. -/
structure Entry (α : Type) where
  level : Nat
  item : α

variable {α β : Type}

/-- Blanks up to the level of an entry, or to a level below it. -/
abbrev indent (n : Nat) (rest : Template (Entry α)) : Template (Entry α) :=
  .put (fun x => indented (x.level + n) "") rest

/-- Something about an entry. -/
abbrev field (print : α → String) (rest : Template (Entry α)) : Template (Entry α) :=
  .put (fun x => print x.item) rest

/-- Something about an entry that may not be known. -/
abbrev field? (print : α → Except Error String) (rest : Template (Entry α)) : Template (Entry α) :=
  .value (fun x => print x.item) rest

/-- The things that belong to an entry, one after the other. -/
abbrev each (items : α → List β) (body : Template (Entry β)) (close : Edge)
    (rest : Template (Entry α)) : Template (Entry α) :=
  .loop (fun x => (items x.item).map (Entry.mk x.level)) body close rest

/-- The body of a loop over things that are printed by a template of their own. -/
def partTemplate (print : α → Except Error String) : Template α :=
  .text "\n" <| .value print <| .text "\n" .done

def valueTemplate : Template (Entry EnumValue) :=
  .text "\n" <| indent 2 <| .text "- name: " <| field (·.fullName) <|
  .text "\n" <| indent 2 <| .text "  number: " <| field (fun v => toString v.number) <|
  .text "\n" .done

def enumTemplate : Template (Entry EnumType) :=
  .text "\n" <| indent 0 <| .text "- name: " <| field (·.fullName) <|
  .text "\n" <| indent 0 <| .text "  values:\n" <|
  each (·.values) valueTemplate .tag <|
  .text "\n" .done

/-- The text of an enum at some level. -/
def enumText (x : Entry EnumType) : Except Error String := enumTemplate.render .tag .tag x

variable (schema : Schema)

/-- The kind of a field of a map entry. -/
def kindOf (f? : Except Error (Option Field)) : Except Error String :=
  f?.map fun f? => (f?.map (·.kind.name)).getD ""

/-- The line that says what a map consists of. -/
def mapTemplate : Template (Entry (MessageBody × Field)) :=
  .text "\n" <| indent 2 <| .text "  map: " <| field? (fun f => kindOf (schema.mapKey? f.2)) <|
  .text " -> " <| field? (fun f => kindOf (schema.mapValue? f.2)) <|
  .text "\n" .done

/-- The oneof of a field. -/
def oneofOf? (f : MessageBody × Field) : Option Oneof := f.2.oneof.bind (f.1.oneofs[·]?)

def oneofTemplate : Template (Entry (MessageBody × Field)) :=
  .text "\n" <| indent 2 <| .text "  oneof: " <|
  field (fun f => ((oneofOf? f).map (·.name)).getD "") <|
  .text "\n" .done

/-- The template for a field, which is given with the message that it belongs to. -/
def fieldTemplate : Template (Entry (MessageBody × Field)) :=
  .text "\n" <| indent 2 <| .text "- name: " <| field (·.2.fullName) <|
  .text "\n" <| indent 2 <| .text "  kind: " <| field (·.2.kind.name) <|
  .text "\n" <| indent 2 <| .text "  cardinality: " <| field (·.2.cardinality.name) <|
  .text "\n" <| indent 2 <| .text "  message: " <|
  field? (fun f => targetName <$> f.2.message.get) <|
  .text "\n" <| indent 2 <| .text "  enum: " <|
  field? (fun f => targetName <$> f.2.enumType.get) <|
  .text "\n" <|
  .cond (fun x => schema.isMap x.item.2) (mapTemplate schema) <|
  .text "\n" <|
  .cond (fun x => .ok (oneofOf? x.item).isSome) oneofTemplate <|
  .text "\n" .done

/-- A message with the texts of the messages that are listed inside it, at any level. -/
structure Shell where
  body : MessageBody
  nested : List (Nat → Except Error String)

def messageTemplate : Template (Entry Shell) :=
  .text "\n" <| indent 0 <| .text "- name: " <| field (·.body.fullName) <|
  .text "\n" <| indent 0 <| .text "  fields:\n" <|
  each (fun m => m.body.fields.map (m.body, ·)) (fieldTemplate schema) .tag <|
  .text "\n" <| indent 0 <| .text "  messages:\n" <|
  each (·.nested) (partTemplate fun x => x.item (x.level + 2)) .dash <|
  .text "\n" <| indent 0 <| .text "  enums:\n" <|
  each (·.body.enums) (partTemplate fun x => enumText ⟨x.level + 2, x.item⟩) .dash <|
  .text "\n" .done

mutual

/-- The text of a message at some level. -/
def messageText : Message → Nat → Except Error String
  | ⟨body, nested⟩, level =>
    (messageTemplate schema).render .tag .tag ⟨level, body, nestedTexts body nested⟩

/-- The texts of the messages nested in `body` that are listed. -/
def nestedTexts (body : MessageBody) : List Message → List (Nat → Except Error String)
  | [] => []
  | m :: ms =>
    if body.lists m.toMessageBody then messageText m :: nestedTexts body ms
    else nestedTexts body ms

end

def dependencyTemplate : Template File :=
  .text "\n- name: " <| .put (·.name) <|
  .text "\n  num_dependencies: " <| .put (fun d => toString d.dependencies.length) <|
  .text "\n  num_messages: " <| .put (fun d => toString d.collectMessages.length) <|
  .text "\n  num_enums: " <| .put (fun d => toString d.collectEnums.length) <|
  .text "\n  num_services: " <| .put (fun d => toString d.services.length) <|
  .text "\n  num_extensions: " <| .put (fun d => toString d.extensions.length) <|
  .text "\n" .done

def methodTemplate : Template Method :=
  .text "\n  - name: " <| .put (·.fullName) <|
  .text "\n    input: " <| .value (fun m => Symbol.fullName <$> m.input.get) <|
  .text "\n    output: " <| .value (fun m => Symbol.fullName <$> m.output.get) <|
  .text "\n    client_streaming: " <| .put (fun m => boolName m.clientStreaming) <|
  .text "\n    server_streaming: " <| .put (fun m => boolName m.serverStreaming) <|
  .text "\n    path: " <| .put (·.path) <|
  .text "\n" .done

def serviceTemplate : Template Service :=
  .text "\n- name: " <| .put (·.fullName) <|
  .text "\n  methods:\n" <|
  .loop (·.methods) methodTemplate .tag <|
  .text "\n" .done

def extensionTemplate : Template Field :=
  .text "\n- name: " <| .put (·.fullName) <|
  .text "\n  extendee: " <|
  .value (fun x => (fun t => (t.map Symbol.fullName).getD "") <$> x.extendee.get) <|
  .text "\n  message: " <| .value (fun x => targetName <$> x.message.get) <|
  .text "\n  enum: " <| .value (fun x => targetName <$> x.enumType.get) <|
  .text "\n" .done

/-- The template of a listing, behind the definitions of what is used for enums and messages. -/
def listingTemplate : Template File :=
  .text "\n# Generated code output.\n# source: " <| .put (·.name) <|
  .text "\n\ndependencies:\n" <|
  .loop (fun f => f.dependencies.filterMap fun d => schema.file? d.fullName)
    dependencyTemplate .tag <|
  .text "\n\nmessages:\n" <|
  .loop (·.messages) (partTemplate (messageText schema · 0)) .dash <|
  .text "\n\nenums:\n" <|
  .loop (·.enums) (partTemplate fun e => enumText ⟨0, e⟩) .dash <|
  .text "\n\nservices:\n" <|
  .loop (·.services) serviceTemplate .tag <|
  .text "\n\nextensions:\n" <|
  .loop (·.extensions) extensionTemplate .tag <|
  .text "\n" .done

/-! ## Rendering -/

/-- Lines, each of which is ended by a line feed. -/
def ended (ls : List String) : String := String.join (ls.map (· ++ "\n"))

@[simp] theorem ended_nil : ended [] = "" := rfl

@[simp] theorem ended_cons (l : String) (ls : List String) :
    ended (l :: ls) = l ++ "\n" ++ ended ls := by
  simp [ended]

@[simp] theorem ended_append (xs ys : List String) : ended (xs ++ ys) = ended xs ++ ended ys := by
  simp [ended]

@[simp] theorem ended_flatten (lss : List (List String)) :
    ended lss.flatten = String.join (lss.map ended) := by
  induction lss with
  | nil => rfl
  | cons ls lss ih => rw [List.flatten_cons, ended_append, ih, List.map_cons, String.join_cons]

theorem ok_eq {s t : String} (h : s.toList = t.toList) :
    (.ok s : Except Error String) = .ok t :=
  congrArg Except.ok (String.toList_inj.mp h)

theorem joined_cons (print : α → Except Error String) (a : α) (as : List α) :
    joined print (a :: as) = (print a).bind fun s => (joined print as).map (s ++ ·) := by
  rw [joined, joined, List.mapM_cons]
  cases print a with
  | error e => rfl
  | ok s =>
    cases as.mapM print with
    | error e => rfl
    | ok parts => exact congrArg Except.ok (String.join_cons ..)

/-- Things that are printed as lines, one after the other, are printed as the lines of all. -/
theorem joined_eq {print : α → Except Error String} {block : α → Except Error (List String)}
    (h : ∀ a, print a = (block a).map ended) (as : List α) :
    joined print as = (as.mapM block).map fun blocks => ended blocks.flatten := by
  rw [joined, mapM_eq_map_mapM h]
  cases as.mapM block with
  | error e => rfl
  | ok blocks => exact congrArg Except.ok (ended_flatten blocks).symm

theorem joined_lines {print : α → Except Error String} {block : α → List String}
    (h : ∀ a, print a = .ok (ended (block a))) (as : List α) :
    joined print as = .ok (ended (as.flatMap block)) := by
  induction as with
  | nil => rfl
  | cons a as ih =>
    rw [joined_cons, h, ih, List.flatMap_cons, ended_append]
    rfl

theorem joined_map (print : β → Except Error String) (g : α → β) (as : List α) :
    joined print (as.map g) = joined (fun a => print (g a)) as := by
  rw [joined, List.mapM_map]
  rfl

theorem render_valueTemplate (level : Nat) (v : EnumValue) :
    valueTemplate.render .tag .tag ⟨level, v⟩ =
      .ok (ended [indented (level + 2) ("- name: " ++ v.fullName),
        indented (level + 2) ("  number: " ++ toString v.number)]) :=
  ok_eq (by simp [indented])

theorem enumText_eq (level : Nat) (e : EnumType) :
    enumText ⟨level, e⟩ = .ok (ended (enumBlock level e)) := by
  simp only [enumText, enumTemplate, render_text, render_put, render_loop, joined_map,
    joined_lines (render_valueTemplate level)]
  exact ok_eq (by simp [enumBlock, indented])

theorem render_mapTemplate (level : Nat) (owner : MessageBody) (f : Field) :
    ((schema.isMap f).bind fun b =>
      if b then (mapTemplate schema).render .tag .tag ⟨level, owner, f⟩ else .ok "") =
      (mapLines schema (level + 2) f).map ended := by
  unfold mapLines Schema.isMap
  simp only [mapTemplate, render_text, render_put, render_value, render_done]
  unfold Schema.mapKey? Schema.mapValue? Schema.entryField?
  rcases schema.mapEntry? f with e | (- | entry)
  · rfl
  · rfl
  · simp only [bind, Except.bind, pure, Except.pure, Option.isSome_some, if_true]
    rcases entry.fields[0]? with - | key
    · rfl
    rcases entry.fields[1]? with - | value
    · rfl
    exact ok_eq (by simp [indented])

theorem render_oneofTemplate (level : Nat) (f : MessageBody × Field) :
    (if (oneofOf? f).isSome then oneofTemplate.render .tag .tag ⟨level, f⟩ else .ok "") =
      .ok (ended ((oneofOf? f).map fun o =>
        indented (level + 2) ("  oneof: " ++ o.name)).toList) := by
  simp only [oneofTemplate, render_text, render_put, render_done]
  cases oneofOf? f with
  | none => rfl
  | some o => exact ok_eq (by simp [indented])

theorem render_fieldTemplate (level : Nat) (owner : MessageBody) (f : Field) :
    (fieldTemplate schema).render .tag .tag ⟨level, owner, f⟩ =
      (fieldBlock schema (level + 2) owner f).map ended := by
  simp only [fieldTemplate, render_text, render_put, render_value, render_cond, render_done,
    render_mapTemplate]
  rw [fieldBlock]
  cases f.message.get with
  | error e => rfl
  | ok message =>
    cases f.enumType.get with
    | error e => rfl
    | ok enumType =>
      cases mapLines schema (level + 2) f with
      | error e => rfl
      | ok map =>
        simp only [Except.bind, Except.map, render_oneofTemplate]
        exact ok_eq (by simp [indented, oneofOf?])

/-- What is printed by a template of its own ends its last line, and the dash behind it leaves
nothing of the line feed in the loop. -/
theorem render_partTemplate (print : α → Except Error String) :
    (partTemplate print).render .tag .dash = print := by
  funext x
  simp only [partTemplate, render_text, render_value, render_done]
  cases print x with
  | error e => rfl
  | ok s => exact ok_eq (by simp)

mutual

theorem messageText_eq (level : Nat) : ∀ m : Message,
    messageText schema m level = (messageBlock schema level m).map ended
  | ⟨body, nested⟩ => by
    rw [messageText, messageBlock]
    simp only [messageTemplate, render_text, render_put, render_loop, render_done, joined_map,
      first_put, first_loop, render_partTemplate, joined_lines (enumText_eq (level + 2)),
      joined_eq (render_fieldTemplate schema level body), nestedTexts_eq (level + 2) body nested]
    cases body.fields.mapM (fieldBlock schema (level + 2) body) with
    | error e => rfl
    | ok fields =>
      cases nestedBlocks schema (level + 2) body nested with
      | error e => rfl
      | ok messages => exact ok_eq (by simp [indented])

theorem nestedTexts_eq (level : Nat) (body : MessageBody) : ∀ ms : List Message,
    joined (fun text => text level) (nestedTexts schema body ms) =
      (nestedBlocks schema level body ms).map ended
  | [] => by
    rw [nestedTexts, nestedBlocks]
    rfl
  | m :: ms => by
    rw [nestedTexts, nestedBlocks]
    cases body.lists m.toMessageBody with
    | false =>
      rw [if_neg Bool.false_ne_true, nestedTexts_eq level body ms]
      cases nestedBlocks schema level body ms <;> rfl
    | true =>
      rw [if_pos rfl, if_pos rfl, joined_cons, messageText_eq level m, nestedTexts_eq level body ms]
      cases messageBlock schema level m with
      | error e => rfl
      | ok first =>
        cases nestedBlocks schema level body ms with
        | error e => rfl
        | ok rest => exact congrArg Except.ok (ended_append first rest).symm

end

theorem render_dependencyTemplate (d : File) :
    dependencyTemplate.render .tag .tag d = .ok (ended (dependencyBlock d)) :=
  ok_eq (by simp [dependencyBlock])

theorem render_methodTemplate (m : Method) :
    methodTemplate.render .tag .tag m = (methodBlock m).map ended := by
  simp only [methodTemplate, render_text, render_put, render_value, render_done]
  rw [methodBlock]
  cases m.input.get with
  | error e => rfl
  | ok input =>
    cases m.output.get with
    | error e => rfl
    | ok output => exact ok_eq (by simp)

theorem render_serviceTemplate (s : Service) :
    serviceTemplate.render .tag .tag s = (serviceBlock s).map ended := by
  simp only [serviceTemplate, render_text, render_put, render_loop, render_done,
    joined_eq render_methodTemplate]
  rw [serviceBlock]
  cases s.methods.mapM methodBlock with
  | error e => rfl
  | ok methods => exact ok_eq (by simp)

theorem render_extensionTemplate (x : Field) :
    extensionTemplate.render .tag .tag x = (extensionBlock x).map ended := by
  simp only [extensionTemplate, render_text, render_put, render_value, render_done]
  rw [extensionBlock]
  cases x.extendee.get with
  | error e => rfl
  | ok extendee =>
    cases x.message.get with
    | error e => rfl
    | ok message =>
      cases x.enumType.get with
      | error e => rfl
      | ok enumType => exact ok_eq (by simp)

theorem text_eq_ended (f : File) : text schema f = (entries schema f).map ended := by
  rw [text]
  cases entries schema f <;> rfl

/-- The listing of a file is its template, rendered: of all the line feeds around tags, those are
left that end the lines of the listing. -/
theorem render_listingTemplate (f : File) :
    (listingTemplate schema).render .tag .border f = text schema f := by
  simp only [listingTemplate, render_text, render_put, render_loop, render_done,
    first_put, first_loop, first_done, render_partTemplate, joined_lines render_dependencyTemplate,
    joined_lines (enumText_eq 0), joined_eq (messageText_eq schema 0),
    joined_eq render_serviceTemplate, joined_eq render_extensionTemplate]
  rw [text_eq_ended, entries]
  cases f.messages.mapM (messageBlock schema 0) with
  | error e => rfl
  | ok messages =>
    cases f.services.mapM serviceBlock with
    | error e => rfl
    | ok services =>
      cases f.extensions.mapM extensionBlock with
      | error e => rfl
      | ok extensions => exact ok_eq (by simp)

end Listing
end Protolink
