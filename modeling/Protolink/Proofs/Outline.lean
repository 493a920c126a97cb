import Protolink.Listing

/-!
# What a listing shows

An outline is the data in the listing of a file: names, kinds, counts and flags, message by message,
and what references mean as far as it is shown.  It is read off a linked file by `outline`, and the
listing of the file is what `Outline.lines` prints of it (`entries_eq`).  An outline knows neither
indentation nor the order of lines; these are a matter of printing alone.
-/

namespace Protolink.Listing

/-! ## Outlines -/

/-- What is shown of a field of a message. -/
structure FieldOutline where
  name : String
  kind : FieldKind
  cardinality : Cardinality
  /-- The message that values have, as it is shown. -/
  message : String
  /-- The enum that values have, as it is shown. -/
  enumType : String
  /-- The kinds of the keys and of the values, of a map. -/
  map? : Option (FieldKind × FieldKind)
  oneof? : Option String
deriving DecidableEq, Repr

/-- What is shown of an enum. -/
structure EnumOutline where
  name : String
  /-- The names and numbers of the values. -/
  values : List (String × Int)
deriving DecidableEq, Repr

/-- What is shown of a message, and of the messages and enums inside it. -/
structure MessageOutline where
  name : String
  fields : List FieldOutline
  messages : List MessageOutline
  enums : List EnumOutline
deriving Repr

/-- What is shown of an imported file. -/
structure DependencyOutline where
  name : String
  dependencies : Nat
  messages : Nat
  enums : Nat
  services : Nat
  extensions : Nat
deriving DecidableEq, Repr

/-- What is shown of a method. -/
structure MethodOutline where
  name : String
  input : String
  output : String
  clientStreaming : Bool
  serverStreaming : Bool
  path : String
deriving DecidableEq, Repr

/-- What is shown of a service. -/
structure ServiceOutline where
  name : String
  methods : List MethodOutline
deriving DecidableEq, Repr

/-- What is shown of a top-level extension. -/
structure ExtensionOutline where
  name : String
  extendee : String
  message : String
  enumType : String
deriving DecidableEq, Repr

/-- What is shown of a file. -/
structure Outline where
  source : String
  dependencies : List DependencyOutline
  messages : List MessageOutline
  enums : List EnumOutline
  services : List ServiceOutline
  extensions : List ExtensionOutline
deriving Repr

/-! ## Printing -/

/-- Lines that each say something under a label of their own. -/
def record (level : Nat) (labels texts : List String) : List String :=
  labels.zipWith (fun label text => indented level (label ++ text)) texts

/-- What the line about a map says. -/
def kindsText (m : FieldKind × FieldKind) : String := m.1.name ++ " -> " ++ m.2.name

def FieldOutline.lines (level : Nat) (x : FieldOutline) : List String :=
  record level ["- name: ", "  kind: ", "  cardinality: ", "  message: ", "  enum: "]
      [x.name, x.kind.name, x.cardinality.name, x.message, x.enumType]
    ++ record level ["  map: "] (x.map?.map kindsText).toList
    ++ record level ["  oneof: "] x.oneof?.toList

/-- The lines of a value of an enum. -/
def valueLines (level : Nat) (v : String × Int) : List String :=
  record level ["- name: ", "  number: "] [v.1, toString v.2]

def EnumOutline.lines (level : Nat) (x : EnumOutline) : List String :=
  [indented level ("- name: " ++ x.name), indented level "  values:"]
    ++ x.values.flatMap (valueLines (level + 2))

mutual

def MessageOutline.lines (level : Nat) : MessageOutline → List String
  | ⟨name, fields, messages, enums⟩ =>
    [indented level ("- name: " ++ name), indented level "  fields:"]
      ++ fields.flatMap (FieldOutline.lines (level + 2))
      ++ [indented level "  messages:"] ++ forestLines (level + 2) messages
      ++ [indented level "  enums:"] ++ enums.flatMap (EnumOutline.lines (level + 2))

/-- The lines of messages next to each other. -/
def forestLines (level : Nat) : List MessageOutline → List String
  | [] => []
  | m :: ms => m.lines level ++ forestLines level ms

end

def DependencyOutline.lines (x : DependencyOutline) : List String :=
  record 0 ["- name: ", "  num_dependencies: ", "  num_messages: ", "  num_enums: ",
      "  num_services: ", "  num_extensions: "]
    [x.name, toString x.dependencies, toString x.messages, toString x.enums, toString x.services,
      toString x.extensions]

def MethodOutline.lines (x : MethodOutline) : List String :=
  record 2 ["- name: ", "  input: ", "  output: ", "  client_streaming: ", "  server_streaming: ",
      "  path: "]
    [x.name, x.input, x.output, boolName x.clientStreaming, boolName x.serverStreaming, x.path]

def ServiceOutline.lines (x : ServiceOutline) : List String :=
  [indented 0 ("- name: " ++ x.name), indented 0 "  methods:"]
    ++ x.methods.flatMap MethodOutline.lines

def ExtensionOutline.lines (x : ExtensionOutline) : List String :=
  record 0 ["- name: ", "  extendee: ", "  message: ", "  enum: "]
    [x.name, x.extendee, x.message, x.enumType]

def Outline.lines (x : Outline) : List String :=
  ["# Generated code output.", "# source: " ++ x.source]
    ++ ["", "dependencies:"] ++ x.dependencies.flatMap DependencyOutline.lines
    ++ ["", "messages:"] ++ x.messages.flatMap (MessageOutline.lines 0)
    ++ ["", "enums:"] ++ x.enums.flatMap (EnumOutline.lines 0)
    ++ ["", "services:"] ++ x.services.flatMap ServiceOutline.lines
    ++ ["", "extensions:"] ++ x.extensions.flatMap ExtensionOutline.lines

def Outline.text (x : Outline) : String := String.join (x.lines.map (· ++ "\n"))

/-! ## Reading an outline off a file -/

def enumOutline (e : EnumType) : EnumOutline :=
  ⟨e.fullName, e.values.map fun v => (v.fullName, v.number)⟩

variable (schema : Schema)

/-- The kinds of the keys and of the values of a map; other fields have none. -/
def mapKinds? (f : Field) : Except Error (Option (FieldKind × FieldKind)) := do
  let some key ← schema.mapKey? f | return none
  let some value ← schema.mapValue? f | return none
  return some (key.kind, value.kind)

def fieldOutline (owner : MessageBody) (f : Field) : Except Error FieldOutline := do
  let message ← f.message.get
  let enumType ← f.enumType.get
  let map? ← mapKinds? schema f
  return {
    name := f.fullName
    kind := f.kind
    cardinality := f.cardinality
    message := targetName message
    enumType := targetName enumType
    map?
    oneof? := (f.oneof.bind (owner.oneofs[·]?)).map (·.name) }

mutual

def messageOutline : Message → Except Error MessageOutline
  | ⟨body, nested⟩ => do
    let fields ← body.fields.mapM (fieldOutline schema body)
    let messages ← nestedOutlines body nested
    return ⟨body.fullName, fields, messages, body.enums.map enumOutline⟩

/-- The outlines of those messages nested in `body` that are listed. -/
def nestedOutlines (body : MessageBody) : List Message → Except Error (List MessageOutline)
  | [] => return []
  | m :: ms =>
    if body.lists m.toMessageBody then return (← messageOutline m) :: (← nestedOutlines body ms)
    else nestedOutlines body ms

end

def dependencyOutline (d : File) : DependencyOutline where
  name := d.name
  dependencies := d.dependencies.length
  messages := d.collectMessages.length
  enums := d.collectEnums.length
  services := d.services.length
  extensions := d.extensions.length

def methodOutline (m : Method) : Except Error MethodOutline := do
  let input ← m.input.get
  let output ← m.output.get
  return {
    name := m.fullName
    input := input.fullName
    output := output.fullName
    clientStreaming := m.clientStreaming
    serverStreaming := m.serverStreaming
    path := m.path }

def serviceOutline (s : Service) : Except Error ServiceOutline :=
  return ⟨s.fullName, ← s.methods.mapM methodOutline⟩

def extensionOutline (x : Field) : Except Error ExtensionOutline := do
  let extendee ← x.extendee.get
  let message ← x.message.get
  let enumType ← x.enumType.get
  return {
    name := x.fullName
    extendee := (extendee.map (·.fullName)).getD ""
    message := targetName message
    enumType := targetName enumType }

/-- What the listing of a file shows. -/
def outline (f : File) : Except Error Outline := do
  let messages ← f.messages.mapM (messageOutline schema)
  let services ← f.services.mapM serviceOutline
  let extensions ← f.extensions.mapM extensionOutline
  return {
    source := f.name
    dependencies :=
      (f.dependencies.filterMap fun d => schema.file? d.fullName).map dependencyOutline
    messages
    enums := f.enums.map enumOutline
    services
    extensions }

/-! ## A listing is a printed outline -/

/-- A loop whose step is another one, followed by a function, is the other loop, followed by the
function on every result. -/
theorem mapM_eq_map_mapM {α β γ ε : Type} {step : α → Except ε β} {step' : α → Except ε γ}
    {g : γ → β} (h : ∀ a, step a = (step' a).map g) (as : List α) :
    as.mapM step = (as.mapM step').map (List.map g) := by
  induction as with
  | nil => rfl
  | cons a as ih =>
    rw [List.mapM_cons, List.mapM_cons, h, ih]
    cases step' a with
    | error e => rfl
    | ok b => cases as.mapM step' <;> rfl

theorem indented_zero (s : String) : indented 0 s = s := String.empty_append

theorem forestLines_eq_flatMap (level : Nat) (ms : List MessageOutline) :
    forestLines level ms = ms.flatMap (MessageOutline.lines level) := by
  induction ms with
  | nil => rfl
  | cons m ms ih => rw [forestLines, ih, List.flatMap_cons]

theorem enumBlock_eq (level : Nat) (e : EnumType) :
    enumBlock level e = (enumOutline e).lines level := by
  rw [enumBlock, EnumOutline.lines, enumOutline, List.flatMap_map]
  rfl

theorem flatMap_enumBlock (level : Nat) (es : List EnumType) :
    es.flatMap (enumBlock level) = (es.map enumOutline).flatMap (EnumOutline.lines level) := by
  rw [List.flatMap_map]
  exact congrArg (es.flatMap ·) (funext (enumBlock_eq level))

theorem mapLines_eq (level : Nat) (f : Field) :
    mapLines schema level f = (mapKinds? schema f).map fun kinds? =>
      record level ["  map: "] (kinds?.map kindsText).toList := by
  rw [mapLines, mapKinds?]
  rcases schema.mapKey? f with e | (- | key)
  · rfl
  · rfl
  · rcases schema.mapValue? f with e | (- | value)
    · rfl
    · rfl
    · refine congrArg (fun line => Except.ok [indented level line]) ?_
      simp only [kindsText, String.append_assoc]

theorem fieldBlock_eq (level : Nat) (owner : MessageBody) (f : Field) :
    fieldBlock schema level owner f = (fieldOutline schema owner f).map (·.lines level) := by
  rw [fieldBlock, fieldOutline, mapLines_eq]
  cases f.message.get with
  | error e => rfl
  | ok message =>
    cases f.enumType.get with
    | error e => rfl
    | ok enumType =>
      cases mapKinds? schema f with
      | error e => rfl
      | ok kinds? => cases f.oneof.bind (owner.oneofs[·]?) <;> rfl

mutual

theorem messageBlock_eq (level : Nat) : ∀ m : Message,
    messageBlock schema level m = (messageOutline schema m).map (·.lines level)
  | ⟨body, nested⟩ => by
    rw [messageBlock, messageOutline,
      mapM_eq_map_mapM (fieldBlock_eq schema (level + 2) body) body.fields,
      nestedBlocks_eq (level + 2) body nested, flatMap_enumBlock]
    cases body.fields.mapM (fieldOutline schema body) with
    | error e => rfl
    | ok fields => cases nestedOutlines schema body nested <;> rfl

theorem nestedBlocks_eq (level : Nat) (body : MessageBody) : ∀ ms : List Message,
    nestedBlocks schema level body ms = (nestedOutlines schema body ms).map (forestLines level)
  | [] => rfl
  | m :: ms => by
    rw [nestedBlocks, nestedOutlines, nestedBlocks_eq level body ms]
    cases body.lists m.toMessageBody with
    | false => cases nestedOutlines schema body ms <;> rfl
    | true =>
      rw [if_pos rfl, if_pos rfl, messageBlock_eq level m]
      cases messageOutline schema m with
      | error e => rfl
      | ok x => cases nestedOutlines schema body ms <;> rfl

end

theorem dependencyBlock_eq (d : File) : dependencyBlock d = (dependencyOutline d).lines := by
  simp only [DependencyOutline.lines, record, indented_zero]
  rfl

theorem methodBlock_eq (m : Method) :
    methodBlock m = (methodOutline m).map MethodOutline.lines := by
  have label (s t : String) : indented 2 (s ++ t) = indented 2 s ++ t :=
    String.append_assoc.symm
  rw [methodBlock, methodOutline]
  cases m.input.get with
  | error e => rfl
  | ok input =>
    cases m.output.get with
    | error e => rfl
    | ok output =>
      refine congrArg Except.ok ?_
      simp only [MethodOutline.lines, record, List.zipWith_cons_cons, label]
      rfl

theorem serviceBlock_eq (s : Service) :
    serviceBlock s = (serviceOutline s).map ServiceOutline.lines := by
  rw [serviceBlock, serviceOutline, mapM_eq_map_mapM methodBlock_eq]
  cases s.methods.mapM methodOutline with
  | error e => rfl
  | ok methods =>
    refine congrArg Except.ok ?_
    simp only [ServiceOutline.lines, indented_zero]
    rfl

theorem extensionBlock_eq (x : Field) :
    extensionBlock x = (extensionOutline x).map ExtensionOutline.lines := by
  rw [extensionBlock, extensionOutline]
  cases x.extendee.get with
  | error e => rfl
  | ok extendee =>
    cases x.message.get with
    | error e => rfl
    | ok message =>
      cases x.enumType.get with
      | error e => rfl
      | ok enumType =>
        refine congrArg Except.ok ?_
        simp only [ExtensionOutline.lines, record, indented_zero]
        rfl

/-- The listing of a file is its outline, printed. -/
theorem entries_eq (f : File) : entries schema f = (outline schema f).map Outline.lines := by
  rw [entries, outline, mapM_eq_map_mapM (messageBlock_eq schema 0),
    mapM_eq_map_mapM serviceBlock_eq, mapM_eq_map_mapM extensionBlock_eq, flatMap_enumBlock]
  cases f.messages.mapM (messageOutline schema) with
  | error e => rfl
  | ok messages =>
    cases f.services.mapM serviceOutline with
    | error e => rfl
    | ok services =>
      cases f.extensions.mapM extensionOutline with
      | error e => rfl
      | ok extensions =>
        refine congrArg Except.ok ?_
        simp only [Outline.lines, List.flatMap_map, ← dependencyBlock_eq]
        rfl

theorem text_eq (f : File) : text schema f = (outline schema f).map Outline.text := by
  rw [text, entries_eq]
  cases outline schema f <;> rfl

end Protolink.Listing
