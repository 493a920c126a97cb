import Protolink.Listing
import Protolink.Proofs.Mirroring

/-!
# What a listing shows

Of a node, a listing shows full names, numbers, kinds and flags of methods, and how many there are
of what.  `skeleton` leaves that and takes away the rest: locations, modules and packages,
spellings, names in other formats.  A schema and its skeleton have the same listings.
-/

namespace Protolink

/-! ## Lists of nodes that are changed -/

namespace Message

variable {g : MessageBody → MessageBody} {e : EnumType → EnumType}

mutual

/-- What is listed in a message is changed with the message, if the change keeps what is listed. -/
theorem collect_map (hg : ∀ b n, (g b).lists (g n) = b.lists n) : ∀ m : Message,
    (m.map g).collect = m.collect.map (map g)
  | ⟨body, nested⟩ => by
    rw [map, collect, collect, collectFrom_mapOf hg body nested]

theorem collectFrom_mapOf (hg : ∀ b n, (g b).lists (g n) = b.lists n) (body : MessageBody) :
    ∀ ms : List Message, collectFrom (g body) (mapOf g ms) = (collectFrom body ms).map (map g)
  | [] => rfl
  | m :: ms => by
    rw [mapOf, collectFrom, collectFrom, toMessageBody_map, hg, List.map_append,
      collectFrom_mapOf hg body ms]
    cases body.lists m.toMessageBody with
    | false => rfl
    | true => simp only [if_true, List.map_cons, collect_map hg m]

end

mutual

theorem collectEnums_map (hg : ∀ b n, (g b).lists (g n) = b.lists n)
    (he : ∀ b, (g b).enums = b.enums.map e) : ∀ m : Message,
    (m.map g).collectEnums = m.collectEnums.map e
  | ⟨body, nested⟩ => by
    rw [map, collectEnums, collectEnums, he, collectEnumsFrom_mapOf hg he body nested,
      List.map_append]

theorem collectEnumsFrom_mapOf (hg : ∀ b n, (g b).lists (g n) = b.lists n)
    (he : ∀ b, (g b).enums = b.enums.map e) (body : MessageBody) : ∀ ms : List Message,
    collectEnumsFrom (g body) (mapOf g ms) = (collectEnumsFrom body ms).map e
  | [] => rfl
  | m :: ms => by
    rw [mapOf, collectEnumsFrom, collectEnumsFrom, toMessageBody_map, hg, List.map_append,
      collectEnumsFrom_mapOf hg he body ms]
    cases body.lists m.toMessageBody with
    | false => rfl
    | true => simp only [if_true, collectEnums_map hg he m]

end

end Message

/-- A list of nodes is filtered as it was before the nodes were changed. -/
theorem filter_map_of_eq {α : Type} (p : α → Bool) (g : α → α) (h : ∀ a, p (g a) = p a)
    (as : List α) : (as.map g).filter p = (as.filter p).map g := by
  rw [List.filter_map]
  exact congrArg (List.map g) (List.filter_congr fun a _ => h a)

/-- A loop over nodes that are changed does what it did, if its step does. -/
theorem mapM_map_of_eq {α β ε : Type} {g : α → α} {step step' : α → Except ε β}
    (h : ∀ a, step (g a) = step' a) (as : List α) : (as.map g).mapM step = as.mapM step' := by
  rw [List.mapM_map]
  exact congrArg (as.mapM ·) (funext h)

/-! ## Skeletons of nodes -/

/-- What is declared, and under which name. -/
def Symbol.skeleton (s : Symbol) : Symbol := { s with origin := default }

/-- The slot of a reference, with the skeleton of what it refers to. -/
abbrev Slot.skeleton (s : Slot (Option Symbol)) : Slot (Option Symbol) :=
  s.map (Option.map Symbol.skeleton)

def Field.skeleton (f : Field) : Field :=
  { f with
    jsonName := "", origin := default, location := default, typeName := "", extendeeName := none
    proto3Optional := false
    enumType := f.enumType.skeleton, message := f.message.skeleton
    extendee := f.extendee.skeleton }

def Oneof.skeleton (o : Oneof) : Oneof := { o with location := default }

def EnumValue.skeleton (v : EnumValue) : EnumValue := { v with location := default }

def EnumType.skeleton (e : EnumType) : EnumType :=
  { e with
    origin := default, location := default, values := e.values.map EnumValue.skeleton }

def MessageBody.skeleton (b : MessageBody) : MessageBody :=
  { b with
    origin := default, location := default, deprecated := false
    fields := b.fields.map Field.skeleton
    oneofs := b.oneofs.map Oneof.skeleton
    ownEnums := b.ownEnums.map EnumType.skeleton
    extensions := b.extensions.map Field.skeleton }

def Message.skeleton (m : Message) : Message := m.map MessageBody.skeleton

def Method.skeleton (m : Method) : Method :=
  { m with
    location := default, inputName := "", outputName := ""
    input := m.input.map Symbol.skeleton, output := m.output.map Symbol.skeleton }

def Service.skeleton (s : Service) : Service :=
  { s with origin := default, location := default, methods := s.methods.map Method.skeleton }

def File.skeleton (f : File) : File :=
  { f with
    origin := ⟨f.name, "", default⟩, syntaxName := "", location := default
    dependencies := f.dependencies.map Symbol.skeleton
    ownMessages := f.ownMessages.map Message.skeleton
    ownEnums := f.ownEnums.map EnumType.skeleton
    ownServices := f.ownServices.map Service.skeleton
    extensions := f.extensions.map Field.skeleton }

/-- The skeletons of the files. -/
def Schema.skeleton (s : Schema) : Schema := { files := s.files.map File.skeleton }

/-! ## What is found in a skeleton -/

namespace MessageBody

theorem lists_skeleton (b n : MessageBody) : b.skeleton.lists n.skeleton = b.lists n := rfl

theorem enums_skeleton (b : MessageBody) : b.skeleton.enums = b.enums.map EnumType.skeleton :=
  filter_map_of_eq EnumType.isComplete EnumType.skeleton (fun _ => rfl) b.ownEnums

end MessageBody

namespace File

variable (f : File)

theorem messages_skeleton : f.skeleton.messages = f.messages.map Message.skeleton := by
  refine filter_map_of_eq (fun m : Message => m.isComplete) Message.skeleton (fun m => ?_)
    f.ownMessages
  rw [Message.skeleton, Message.toMessageBody_map]
  rfl

theorem enums_skeleton : f.skeleton.enums = f.enums.map EnumType.skeleton :=
  filter_map_of_eq EnumType.isComplete EnumType.skeleton (fun _ => rfl) f.ownEnums

theorem services_skeleton : f.skeleton.services = f.services.map Service.skeleton :=
  filter_map_of_eq Service.isComplete Service.skeleton (fun _ => rfl) f.ownServices

theorem collectMessages_skeleton :
    f.skeleton.collectMessages = f.collectMessages.map Message.skeleton := by
  rw [collectMessages, collectMessages, messages_skeleton, List.flatMap_map, List.map_flatMap]
  refine List.flatMap_congr fun m _ => ?_
  rw [List.map_cons, Message.skeleton, Message.collect_map MessageBody.lists_skeleton]
  rfl

theorem collectEnums_skeleton :
    f.skeleton.collectEnums = f.collectEnums.map EnumType.skeleton := by
  rw [collectEnums, collectEnums, enums_skeleton, messages_skeleton, List.flatMap_map,
    List.map_append, List.map_flatMap]
  refine congrArg _ (List.flatMap_congr fun m _ => ?_)
  exact Message.collectEnums_map MessageBody.lists_skeleton MessageBody.enums_skeleton m

end File

namespace Schema

variable (s : Schema)

theorem file?_skeleton (name : String) :
    s.skeleton.file? name = (s.file? name).map File.skeleton := by
  rw [file?, skeleton, List.find?_map]
  rfl

theorem message?_skeleton (fullName : String) :
    s.skeleton.message? fullName = (s.message? fullName).map Message.skeleton := by
  have messages : s.skeleton.files.flatMap (·.allMessages) =
      (s.files.flatMap (·.allMessages)).map Message.skeleton := by
    rw [skeleton, List.flatMap_map, List.map_flatMap]
    exact List.flatMap_congr fun f _ => Message.allOf_map MessageBody.skeleton f.ownMessages
  rw [message?, messages, List.find?_map]
  simp only [Function.comp_def, Message.skeleton, Message.toMessageBody_map]
  rfl

theorem mapEntry?_skeleton (f : Field) :
    s.skeleton.mapEntry? f.skeleton = (s.mapEntry? f).map (Option.map Message.skeleton) := by
  have target : f.skeleton.message.get = f.message.get.map (Option.map Symbol.skeleton) :=
    Slot.get_map _ f.message
  unfold mapEntry?
  rw [target]
  show (Except.map _ f.message.get >>= _) = Except.map _ (f.message.get >>= _)
  cases f.message.get with
  | error e => rfl
  | ok t =>
    cases t with
    | none => rfl
    | some symbol =>
      show Except.ok ((s.skeleton.message? symbol.fullName).filter (·.isMapEntry)) =
        .ok (((s.message? symbol.fullName).filter (·.isMapEntry)).map Message.skeleton)
      rw [message?_skeleton, Option.filter_map]
      simp only [Function.comp_def, Message.skeleton, Message.toMessageBody_map]
      rfl

theorem entryField?_skeleton (f : Field) (i : Nat) :
    s.skeleton.entryField? f.skeleton i = (s.entryField? f i).map (Option.map Field.skeleton) := by
  unfold entryField?
  rw [mapEntry?_skeleton]
  cases s.mapEntry? f with
  | error e => rfl
  | ok entry =>
    cases entry with
    | none => rfl
    | some m =>
      have fields : m.skeleton.fields[i]? = (m.fields[i]?).map Field.skeleton := by
        rw [Message.skeleton, Message.toMessageBody_map]
        exact List.getElem?_map
      simp only [Except.map, Option.map_some, bind, Except.bind, fields]
      cases m.fields[i]? <;> rfl

end Schema

/-! ## Listings of skeletons -/

namespace Listing

variable (s : Schema)

theorem targetName_skeleton (t : Option Symbol) :
    targetName (t.map Symbol.skeleton) = targetName t := by
  cases t <;> rfl

theorem enumBlock_skeleton (level : Nat) (e : EnumType) :
    enumBlock level e.skeleton = enumBlock level e := by
  rw [enumBlock, EnumType.skeleton, List.flatMap_map]
  rfl

theorem flatMap_enumBlock_skeleton (level : Nat) (es : List EnumType) :
    (es.map EnumType.skeleton).flatMap (enumBlock level) = es.flatMap (enumBlock level) := by
  rw [List.flatMap_map]
  exact List.flatMap_congr fun e _ => enumBlock_skeleton level e

theorem mapLines_skeleton (level : Nat) (f : Field) :
    mapLines s.skeleton level f.skeleton = mapLines s level f := by
  unfold mapLines Schema.mapKey? Schema.mapValue?
  rw [s.entryField?_skeleton f 0, s.entryField?_skeleton f 1]
  rcases s.entryField? f 0 with _ | _ | key
  · rfl
  · rfl
  · rcases s.entryField? f 1 with _ | _ | value <;> rfl

theorem fieldBlock_skeleton (level : Nat) (owner : MessageBody) (f : Field) :
    fieldBlock s.skeleton level owner.skeleton f.skeleton = fieldBlock s level owner f := by
  have oneof : (f.oneof.bind (owner.skeleton.oneofs[·]?)).map
        (fun o => indented level ("  oneof: " ++ o.name)) =
      (f.oneof.bind (owner.oneofs[·]?)).map
        (fun o => indented level ("  oneof: " ++ o.name)) := by
    cases f.oneof with
    | none => rfl
    | some i =>
      show Option.map _ (owner.oneofs.map Oneof.skeleton)[i]? = Option.map _ owner.oneofs[i]?
      rw [List.getElem?_map, Option.map_map]
      rfl
  have message : f.skeleton.message.get = f.message.get.map (Option.map Symbol.skeleton) :=
    Slot.get_map _ f.message
  have enumType : f.skeleton.enumType.get = f.enumType.get.map (Option.map Symbol.skeleton) :=
    Slot.get_map _ f.enumType
  unfold fieldBlock
  rw [mapLines_skeleton, ← oneof, message, enumType]
  rcases f.message.get with _ | message
  · rfl
  rcases f.enumType.get with _ | enumType
  · rfl
  simp only [Except.map, bind, Except.bind, targetName_skeleton]
  rfl

mutual

theorem messageBlock_skeleton (level : Nat) : ∀ m : Message,
    messageBlock s.skeleton level m.skeleton = messageBlock s level m
  | ⟨body, nested⟩ => by
    have fields : body.skeleton.fields.mapM (fieldBlock s.skeleton (level + 2) body.skeleton) =
        body.fields.mapM (fieldBlock s (level + 2) body) :=
      mapM_map_of_eq (fieldBlock_skeleton s (level + 2) body) body.fields
    have fullName : body.skeleton.fullName = body.fullName := rfl
    rw [Message.skeleton, Message.map, messageBlock, messageBlock, fields,
      nestedBlocks_skeleton (level + 2) body nested, body.enums_skeleton,
      flatMap_enumBlock_skeleton, fullName]

theorem nestedBlocks_skeleton (level : Nat) (body : MessageBody) : ∀ ms : List Message,
    nestedBlocks s.skeleton level body.skeleton (Message.mapOf MessageBody.skeleton ms) =
      nestedBlocks s level body ms
  | [] => rfl
  | m :: ms => by
    rw [Message.mapOf, nestedBlocks, nestedBlocks, Message.toMessageBody_map,
      MessageBody.lists_skeleton, nestedBlocks_skeleton level body ms]
    cases body.lists m.toMessageBody with
    | false => rfl
    | true =>
      have first : messageBlock s.skeleton level (m.map MessageBody.skeleton) =
          messageBlock s level m := messageBlock_skeleton level m
      simp only [if_true, first]

end

theorem dependencyBlock_skeleton (d : File) : dependencyBlock d.skeleton = dependencyBlock d := by
  unfold dependencyBlock
  rw [d.collectMessages_skeleton, d.collectEnums_skeleton, d.services_skeleton, List.length_map,
    List.length_map, List.length_map, File.skeleton, List.length_map, List.length_map]
  rfl

theorem methodBlock_skeleton (m : Method) : methodBlock m.skeleton = methodBlock m := by
  have input : m.skeleton.input.get = m.input.get.map Symbol.skeleton := Slot.get_map _ m.input
  have output : m.skeleton.output.get = m.output.get.map Symbol.skeleton := Slot.get_map _ m.output
  unfold methodBlock
  rw [input, output]
  rcases m.input.get with _ | input
  · rfl
  · rcases m.output.get with _ | output <;> rfl

theorem serviceBlock_skeleton (v : Service) : serviceBlock v.skeleton = serviceBlock v := by
  have methods : v.skeleton.methods.mapM methodBlock = v.methods.mapM methodBlock :=
    mapM_map_of_eq methodBlock_skeleton v.methods
  rw [serviceBlock, methods]
  rfl

theorem extensionBlock_skeleton (x : Field) : extensionBlock x.skeleton = extensionBlock x := by
  have extendee : x.skeleton.extendee.get = x.extendee.get.map (Option.map Symbol.skeleton) :=
    Slot.get_map _ x.extendee
  have message : x.skeleton.message.get = x.message.get.map (Option.map Symbol.skeleton) :=
    Slot.get_map _ x.message
  have enumType : x.skeleton.enumType.get = x.enumType.get.map (Option.map Symbol.skeleton) :=
    Slot.get_map _ x.enumType
  unfold extensionBlock
  rw [extendee, message, enumType]
  rcases x.extendee.get with _ | extendee
  · rfl
  rcases x.message.get with _ | message
  · rfl
  rcases x.enumType.get with _ | enumType
  · rfl
  simp only [Except.map, bind, Except.bind, targetName_skeleton, Option.map_map]
  rfl

theorem entries_skeleton (f : File) : entries s.skeleton f.skeleton = entries s f := by
  have messages : f.skeleton.messages.mapM (messageBlock s.skeleton 0) =
      f.messages.mapM (messageBlock s 0) := by
    rw [f.messages_skeleton]
    exact mapM_map_of_eq (messageBlock_skeleton s 0) f.messages
  have services : f.skeleton.services.mapM serviceBlock = f.services.mapM serviceBlock := by
    rw [f.services_skeleton]
    exact mapM_map_of_eq serviceBlock_skeleton f.services
  have extensions : f.skeleton.extensions.mapM extensionBlock =
      f.extensions.mapM extensionBlock := mapM_map_of_eq extensionBlock_skeleton f.extensions
  have dependencies : (f.skeleton.dependencies.filterMap fun d =>
        s.skeleton.file? d.fullName).flatMap dependencyBlock =
      (f.dependencies.filterMap fun d => s.file? d.fullName).flatMap dependencyBlock := by
    have imported : (f.skeleton.dependencies.filterMap fun d => s.skeleton.file? d.fullName) =
        (f.dependencies.filterMap fun d => s.file? d.fullName).map File.skeleton := by
      simp only [← s.file?_skeleton, List.map_filterMap]
      exact List.filterMap_map
    rw [imported, List.flatMap_map]
    exact List.flatMap_congr fun d _ => dependencyBlock_skeleton d
  unfold entries
  dsimp only
  rw [messages, services, extensions, dependencies, f.enums_skeleton, flatMap_enumBlock_skeleton]
  rfl

/-- A listing shows nothing that is not in the skeleton. -/
theorem write_skeleton (f : File) : write s.skeleton f.skeleton = write s f := by
  unfold write text
  rw [entries_skeleton]
  rfl

end Listing

end Protolink
