import Protolink.Proofs.Outcome
import Protolink.Proofs.Assembly

/-!
# Other spellings of the same references

A spelling says how to write a name that is used in a scope.  If the new names mean what the old
ones meant, files that are respelled make the same schema, but for the spellings in it: this is
`Schema.ofFiles_respelled`.  Respelling a descriptor and making its node are done in either order,
and so are respelling a node and linking it.
-/

namespace Protolink

/-- How to write the name of a declaration of some kind that is used in a scope. -/
abbrev Spelling := DeclKind → String → String → String

variable (spell : Spelling)

/-! ## Respelled descriptors -/

/-- A field with its references spelled anew; what its kind has no use for stays as it is. -/
def FieldDescriptor.respelled (scope : String) (d : FieldDescriptor) : FieldDescriptor :=
  { d with
    typeName := match d.kind.bind FieldKind.targetKind? with
      | some kind => spell kind scope d.typeName
      | none => d.typeName
    extendee := d.extendee.map fun e => if e = "" then e else spell .message scope e }

def MessageDecl.respelled (fullName : String) (d : MessageDecl) : MessageDecl :=
  { d with
    fields := d.fields.map (·.respelled spell fullName)
    extensions := d.extensions.map (·.respelled spell fullName) }

namespace MessageDescriptor

mutual

def respelled (scope : String) : MessageDescriptor → MessageDescriptor
  | ⟨d, nested⟩ => ⟨d.respelled spell (Name.join scope d.name),
      respelledOf (Name.join scope d.name) nested⟩

def respelledOf (scope : String) : List MessageDescriptor → List MessageDescriptor
  | [] => []
  | m :: ms => m.respelled scope :: respelledOf scope ms

end

end MessageDescriptor

def MethodDescriptor.respelled (service : String) (d : MethodDescriptor) : MethodDescriptor :=
  { d with
    input := spell .message service d.input
    output := spell .message service d.output }

def ServiceDescriptor.respelled (package : String) (d : ServiceDescriptor) : ServiceDescriptor :=
  { d with methods := d.methods.map (·.respelled spell (Name.join package d.name)) }

/-- A file with all references in it spelled anew, each in the scope that it is used in. -/
def FileDescriptor.respelled (d : FileDescriptor) : FileDescriptor :=
  { d with
    messages := MessageDescriptor.respelledOf spell d.package d.messages
    services := d.services.map (·.respelled spell d.package)
    extensions := d.extensions.map (·.respelled spell d.package) }

/-! ## Respelled nodes -/

def Field.respelled (f : Field) : Field :=
  { f with
    typeName := match f.kind.targetKind? with
      | some kind => spell kind f.scope f.typeName
      | none => f.typeName
    extendeeName := f.extendeeName.map fun e => if e = "" then e else spell .message f.scope e }

def MessageBody.respelled (b : MessageBody) : MessageBody :=
  { b with
    fields := b.fields.map (Field.respelled spell)
    extensions := b.extensions.map (Field.respelled spell) }

def Method.respelled (scope : String) (m : Method) : Method :=
  { m with
    inputName := spell .message scope m.inputName
    outputName := spell .message scope m.outputName }

def Service.respelled (s : Service) : Service :=
  { s with methods := s.methods.map (Method.respelled spell s.fullName) }

def File.respelled (f : File) : File :=
  { f with
    ownMessages := f.ownMessages.map (Message.map (MessageBody.respelled spell))
    ownServices := f.ownServices.map (Service.respelled spell)
    extensions := f.extensions.map (Field.respelled spell) }

def Schema.respelled (s : Schema) : Schema := { s with files := s.files.map (File.respelled spell) }

/-! ## Respelled descriptors make respelled nodes -/

namespace MessageDescriptor

theorem respelledOf_eq_map (scope : String) (ms : List MessageDescriptor) :
    respelledOf spell scope ms = ms.map (respelled spell scope) := by
  induction ms with
  | nil => rfl
  | cons m ms ih => rw [respelledOf, ih, List.map_cons]

@[simp] theorem toMessageDecl_respelled (scope : String) (m : MessageDescriptor) :
    (m.respelled spell scope).toMessageDecl =
      m.toMessageDecl.respelled spell (Name.join scope m.name) := by
  cases m
  rw [respelled]

end MessageDescriptor

/-- Elements that are changed are still in their places. -/
theorem map_zipIdx_map {α β : Type} (g : α → α) (node : α × Nat → β) (as : List α) :
    (as.map g).zipIdx.map node = as.zipIdx.map fun a => node (g a.1, a.2) := by
  rw [List.zipIdx_map, List.map_map]
  rfl

namespace Source

variable (src : Source)

theorem fieldNode_respelled (parent : Option String) (oneof : Option Nat) (path : List Int)
    (d : FieldDescriptor) :
    src.fieldNode parent oneof path (d.respelled spell (src.scope parent)) =
      (src.fieldNode parent oneof path d).respelled spell := by
  have kind : (d.kind.getD .double).targetKind? = d.kind.bind FieldKind.targetKind? := by
    cases d.kind <;> rfl
  simp only [fieldNode, FieldDescriptor.respelled, Field.respelled, kind]
  rfl

/-- Fields are added to a respelled message as they are to the message. -/
theorem foldl_addField_respelled (fs : List Field) (b : MessageBody) :
    (fs.map (Field.respelled spell)).foldl MessageBody.addField (b.respelled spell) =
      (fs.foldl MessageBody.addField b).respelled spell := by
  induction fs generalizing b with
  | nil => rfl
  | cons f fs ih =>
    have step : (b.respelled spell).addField (f.respelled spell) =
        (b.addField f).respelled spell := by
      simp only [MessageBody.addField, MessageBody.respelled, List.map_append, List.map_singleton,
        List.length_map]
      rfl
    rw [List.map_cons, List.foldl_cons, step, ih, List.foldl_cons]

/-- The node of a message with its oneofs and nothing else. -/
def oneofsNode (parent : Option String) (path : List Int) (d : MessageDecl) : MessageBody :=
  { (src.blankMessage parent path d).toMessageBody with
    oneofs := d.oneofs.zipIdx.map fun o =>
      src.oneofNode (Name.join (src.scope parent) d.name) path o.2 o.1 }

/-- The regular fields of a message. -/
def members (message : String) (path : List Int) (ds : List FieldDescriptor) : List Field :=
  ds.zipIdx.map fun f => src.memberNode message path f.2 f.1

/-- The extensions in a message. -/
def ownExtensions (message : String) (path : List Int) (ds : List FieldDescriptor) : List Field :=
  ds.zipIdx.map fun x =>
    src.fieldNode (some message) none (path ++ [Tag.extensions, (x.2 : Int)]) x.1

theorem bodyNode_eq (parent : Option String) (path : List Int) (d : MessageDecl) :
    src.bodyNode parent path d =
      { (src.members (Name.join (src.scope parent) d.name) path d.fields).foldl
          MessageBody.addField (src.oneofsNode parent path d) with
        ownEnums := d.enums.zipIdx.map fun e => src.enumNode
          (some (Name.join (src.scope parent) d.name)) (path ++ [Tag.enums, (e.2 : Int)]) e.1
        extensions := src.ownExtensions (Name.join (src.scope parent) d.name) path d.extensions
        isComplete := true } := rfl

theorem members_respelled (message : String) (path : List Int) (ds : List FieldDescriptor) :
    src.members message path (ds.map (·.respelled spell message)) =
      (src.members message path ds).map (Field.respelled spell) := by
  rw [members, members, map_zipIdx_map, List.map_map]
  exact List.map_congr_left fun f _ => src.fieldNode_respelled spell (some message) _ _ f.1

theorem ownExtensions_respelled (message : String) (path : List Int)
    (ds : List FieldDescriptor) :
    src.ownExtensions message path (ds.map (·.respelled spell message)) =
      (src.ownExtensions message path ds).map (Field.respelled spell) := by
  rw [ownExtensions, ownExtensions, map_zipIdx_map, List.map_map]
  exact List.map_congr_left fun x _ => src.fieldNode_respelled spell (some message) _ _ x.1

theorem bodyNode_respelled (parent : Option String) (path : List Int) (d : MessageDecl) :
    src.bodyNode parent path (d.respelled spell (Name.join (src.scope parent) d.name)) =
      (src.bodyNode parent path d).respelled spell := by
  let fullName := Name.join (src.scope parent) d.name
  have fields : (src.members fullName path (d.respelled spell fullName).fields).foldl
        MessageBody.addField (src.oneofsNode parent path (d.respelled spell fullName)) =
      ((src.members fullName path d.fields).foldl MessageBody.addField
        (src.oneofsNode parent path d)).respelled spell := by
    rw [← foldl_addField_respelled, ← members_respelled]
    rfl
  have extensions : src.ownExtensions fullName path (d.respelled spell fullName).extensions =
      (src.ownExtensions fullName path d.extensions).map (Field.respelled spell) :=
    src.ownExtensions_respelled spell fullName path d.extensions
  have name : (d.respelled spell fullName).name = d.name := rfl
  rw [bodyNode_eq, bodyNode_eq, name, fields, extensions]
  rfl

mutual

theorem messageNode_respelled (parent : Option String) (path : List Int) :
    ∀ d : MessageDescriptor, src.messageNode parent path (d.respelled spell (src.scope parent)) =
      (src.messageNode parent path d).map (MessageBody.respelled spell)
  | ⟨d, nested⟩ => by
    rw [MessageDescriptor.respelled, messageNode, messageNode, Message.map, bodyNode_respelled]
    exact congrArg (Message.mk _)
      (nestedNodes_respelled (Name.join (src.scope parent) d.name) path 0 nested)

theorem nestedNodes_respelled (message : String) (path : List Int) (i : Nat) :
    ∀ ds : List MessageDescriptor,
    src.nestedNodes message path i (MessageDescriptor.respelledOf spell message ds) =
      Message.mapOf (MessageBody.respelled spell) (src.nestedNodes message path i ds)
  | [] => rfl
  | d :: ds => by
    rw [MessageDescriptor.respelledOf, nestedNodes, nestedNodes, Message.mapOf,
      ← nestedNodes_respelled message path (i + 1) ds, ← messageNode_respelled (some message) _ d]
    rfl

end

theorem serviceNode_respelled (path : List Int) (d : ServiceDescriptor) :
    src.serviceNode path (d.respelled spell src.origin.package) =
      (src.serviceNode path d).respelled spell := by
  simp only [serviceNode, ServiceDescriptor.respelled, Service.respelled, map_zipIdx_map,
    List.map_map]
  rfl

end Source

/-- A file that is respelled makes the node that is respelled. -/
theorem FileDescriptor.node_respelled (d : FileDescriptor) (scheme : ImportScheme)
    (generate : Bool) :
    (d.respelled spell).node scheme generate = (d.node scheme generate).respelled spell := by
  let src := d.source scheme
  have messages : ((d.respelled spell).messages.zipIdx.map fun m =>
        src.messageNode none [Tag.fileMessages, (m.2 : Int)] m.1) =
      (d.node scheme generate).ownMessages.map (Message.map (MessageBody.respelled spell)) := by
    rw [respelled, MessageDescriptor.respelledOf_eq_map, map_zipIdx_map, node, List.map_map]
    exact List.map_congr_left fun m _ => src.messageNode_respelled spell none _ m.1
  have services : ((d.respelled spell).services.zipIdx.map fun s =>
        src.serviceNode [Tag.fileServices, (s.2 : Int)] s.1) =
      (d.node scheme generate).ownServices.map (Service.respelled spell) := by
    rw [respelled, map_zipIdx_map, node, List.map_map]
    exact List.map_congr_left fun s _ => src.serviceNode_respelled spell _ s.1
  have extensions : ((d.respelled spell).extensions.zipIdx.map fun x =>
        src.fieldNode none none [Tag.fileExtensions, (x.2 : Int)] x.1) =
      (d.node scheme generate).extensions.map (Field.respelled spell) := by
    rw [respelled, map_zipIdx_map, node, List.map_map]
    exact List.map_congr_left fun x _ => src.fieldNode_respelled spell none none _ x.1
  rw [File.respelled, ← messages, ← services, ← extensions]
  rfl

/-! ## Linking what is respelled -/

/-- A spelling that writes other names for the same things. -/
structure Spelling.Keeps (spell : Spelling) (r : Registry Symbol) : Prop where
  ne_empty : ∀ kind scope name, name ≠ "" → spell kind scope name ≠ ""
  resolve : ∀ kind scope name,
    r.resolve [kind] scope (spell kind scope name) = r.resolve [kind] scope name

variable {spell} {r : Registry Symbol}

namespace Field

theorem typeName_respelled {f : Field} {kind : DeclKind} (hk : f.kind.targetKind? = some kind) :
    (f.respelled spell).typeName = spell kind f.scope f.typeName := by
  rw [respelled, hk]

theorem extendeeName_respelled (f : Field) : (f.respelled spell).extendeeName =
    f.extendeeName.map fun e => if e = "" then e else spell .message f.scope e := rfl

theorem targetSymbol?_respelled (h : spell.Keeps r) (f : Field) :
    (f.respelled spell).targetSymbol? r = f.targetSymbol? r := by
  unfold targetSymbol?
  refine Option.bind_congr fun kind hk => ?_
  rw [typeName_respelled (f := f) hk]
  exact h.resolve kind f.scope f.typeName

theorem extendedSymbol?_respelled (h : spell.Keeps r) (f : Field) :
    (f.respelled spell).extendedSymbol? r = f.extendedSymbol? r := by
  have scope : (f.respelled spell).scope = f.scope := rfl
  rw [extendedSymbol?, extendedSymbol?, scope, extendeeName_respelled]
  cases f.extendeeName with
  | none => rfl
  | some e =>
    by_cases he : e = ""
    · simp [he]
    · have hne := h.ne_empty .message f.scope e he
      simp only [Option.map_some, he, if_false, Option.filter, hne, ne_eq, not_false_eq_true,
        decide_true, if_true, Option.bind_some]
      exact h.resolve .message f.scope e

theorem linked_respelled (h : spell.Keeps r) (f : Field) :
    (f.respelled spell).linked r = (f.linked r).respelled spell := by
  rw [linked, targetSymbol?_respelled h, extendedSymbol?_respelled h]
  rfl

theorem Resolves.respelled (h : spell.Keeps r) {f : Field} (hf : f.Resolves r) :
    (f.respelled spell).Resolves r := by
  constructor
  · intro kind hk
    obtain ⟨hn, hr⟩ := hf.target kind hk
    rw [typeName_respelled (f := f) hk]
    refine ⟨h.ne_empty kind f.scope f.typeName hn, ?_⟩
    rwa [← h.resolve] at hr
  · intro e he hne
    obtain ⟨e₀, he₀, rfl⟩ := Option.map_eq_some_iff.mp he
    by_cases h₀ : e₀ = ""
    · rw [if_pos h₀] at hne
      exact absurd h₀ hne
    · rw [if_neg h₀]
      have hr := hf.extendee e₀ he₀ h₀
      rwa [← h.resolve] at hr

theorem linkable_respelled (h : spell.Keeps r) {f : Field} (hf : f.IsOpen ∧ f.Resolves r) :
    (f.respelled spell).IsOpen ∧ (f.respelled spell).Resolves r :=
  ⟨⟨hf.1.enumType, hf.1.message, hf.1.extendee⟩, hf.2.respelled h⟩

end Field

namespace MessageBody

theorem lists_respelled (spell : Spelling) (b n : MessageBody) :
    (b.respelled spell).lists (n.respelled spell) = b.lists n := rfl

theorem linked_respelled (h : spell.Keeps r) (b : MessageBody) :
    (b.respelled spell).linked r = (b.linked r).respelled spell := by
  simp only [linked, respelled, List.map_map, Function.comp_def, Field.linked_respelled h]

theorem Linkable.respelled (h : spell.Keeps r) {b : MessageBody} (hb : b.Linkable r) :
    (b.respelled spell).Linkable r := by
  constructor
  · refine List.forall_mem_map.mpr fun f hf => ?_
    exact Field.linkable_respelled h (hb.fields f hf)
  · refine List.forall_mem_map.mpr fun x hx => ?_
    exact Field.linkable_respelled h (hb.extensions x hx)

end MessageBody

namespace Message

variable {g k : MessageBody → MessageBody}

mutual

/-- Two changes of which one keeps what is listed may be made in either order. -/
theorem mapListed_map (hl : ∀ b n, (g b).lists (g n) = b.lists n) (hk : ∀ b, k (g b) = g (k b)) :
    ∀ m : Message, (m.map g).mapListed k = (m.mapListed k).map g
  | ⟨body, nested⟩ => by
    rw [map, mapListed, mapListed, map, hk, mapNested_mapOf hl hk body nested]

theorem mapNested_mapOf (hl : ∀ b n, (g b).lists (g n) = b.lists n) (hk : ∀ b, k (g b) = g (k b))
    (body : MessageBody) : ∀ ms : List Message,
    mapNested k (g body) (mapOf g ms) = mapOf g (mapNested k body ms)
  | [] => rfl
  | m :: ms => by
    rw [mapOf, mapNested, mapNested, mapOf, toMessageBody_map, hl, mapNested_mapOf hl hk body ms]
    cases body.lists m.toMessageBody with
    | false => rfl
    | true => simp only [if_true, mapListed_map hl hk m]

end

mutual

theorem forListed_map {P : MessageBody → Prop} (hl : ∀ b n, (g b).lists (g n) = b.lists n)
    (hP : ∀ b, P b → P (g b)) : ∀ m : Message, m.ForListed P → (m.map g).ForListed P
  | ⟨body, nested⟩, h => by
    rw [ForListed] at h
    rw [map, ForListed]
    exact ⟨forNested_mapOf hl hP body nested h.1, hP body h.2⟩

theorem forNested_mapOf {P : MessageBody → Prop} (hl : ∀ b n, (g b).lists (g n) = b.lists n)
    (hP : ∀ b, P b → P (g b)) (body : MessageBody) : ∀ ms : List Message,
    ForNested P body ms → ForNested P (g body) (mapOf g ms)
  | [], _ => trivial
  | m :: ms, h => by
    rw [ForNested] at h
    rw [mapOf, ForNested, toMessageBody_map, hl]
    exact ⟨fun hm => forListed_map hl hP m (h.1 hm), forNested_mapOf hl hP body ms h.2⟩

end

end Message

namespace Method

theorem linked_respelled (h : spell.Keeps r) (scope : String) (m : Method) :
    (m.respelled spell scope).linked r scope = (m.linked r scope).respelled spell scope := by
  simp only [linked, respelled, h.resolve]

theorem Linkable.respelled (h : spell.Keeps r) {scope : String} {m : Method}
    (hm : m.Linkable r scope) : (m.respelled spell scope).Linkable r scope := by
  obtain ⟨hi, ho, ⟨input, resolveInput⟩, output, resolveOutput⟩ := hm
  refine ⟨hi, ho, ⟨h.ne_empty .message scope _ input, ?_⟩,
    h.ne_empty .message scope _ output, ?_⟩
  · rwa [← h.resolve] at resolveInput
  · rwa [← h.resolve] at resolveOutput

end Method

theorem Service.linked_respelled (h : spell.Keeps r) (s : Service) :
    (s.respelled spell).linked r = (s.linked r).respelled spell := by
  simp only [linked, respelled, List.map_map, Function.comp_def, Method.linked_respelled h]

namespace File

/-- A respelled file is linked to what the file is linked to. -/
theorem linked_respelled (h : spell.Keeps r) (f : File) :
    (f.respelled spell).linked r = (f.linked r).respelled spell := by
  have message (m : Message) : (if (m.map (MessageBody.respelled spell)).isComplete then
        (m.map (MessageBody.respelled spell)).mapListed (MessageBody.linked r)
        else m.map (MessageBody.respelled spell)) =
      (if m.isComplete then m.mapListed (MessageBody.linked r) else m).map
        (MessageBody.respelled spell) := by
    rw [Message.toMessageBody_map,
      Message.mapListed_map (MessageBody.lists_respelled spell) (MessageBody.linked_respelled h)]
    exact (apply_ite (Message.map (MessageBody.respelled spell)) _ _ _).symm
  have service (s : Service) : (if (s.respelled spell).isComplete then
        (s.respelled spell).linked r else s.respelled spell) =
      (if s.isComplete then s.linked r else s).respelled spell := by
    rw [Service.linked_respelled h]
    exact (apply_ite (Service.respelled spell) _ _ _).symm
  simp only [linked, respelled, List.map_map, Function.comp_def, message, service,
    Field.linked_respelled h]

theorem Linkable.respelled (h : spell.Keeps r) {f : File} (hf : f.Linkable r) :
    (f.respelled spell).Linkable r := by
  constructor
  · exact hf.dependencies
  · refine List.forall_mem_map.mpr fun m hm hc => ?_
    rw [Message.toMessageBody_map] at hc
    exact Message.forListed_map (P := MessageBody.Linkable r) (MessageBody.lists_respelled spell)
      (fun b hb => MessageBody.Linkable.respelled h hb) m (hf.messages m hm hc)
  · refine List.forall_mem_map.mpr fun s hs hc => List.forall_mem_map.mpr fun m hm => ?_
    exact Method.Linkable.respelled h (hf.services s hs hc m hm)
  · refine List.forall_mem_map.mpr fun x hx => ?_
    exact Field.linkable_respelled h (hf.extensions x hx)

end File

/-! ## Respelled files make the respelled schema -/

section Declared

variable (spell)

theorem MessageDecl.symbols_respelled (o : Origin) (fullName scope : String) (d : MessageDecl) :
    (d.respelled spell scope).symbols o fullName = d.symbols o fullName := by
  simp only [symbols, respelled, List.map_map]
  rfl

namespace MessageDescriptor

mutual

theorem innerSymbols_respelled (o : Origin) (fullName scope : String) : ∀ m : MessageDescriptor,
    (m.respelled spell scope).innerSymbols o fullName = m.innerSymbols o fullName
  | ⟨d, nested⟩ => by
    rw [respelled, innerSymbols, innerSymbols, MessageDecl.symbols_respelled,
      symbolsOf_respelledOf o _ _ nested]

theorem symbolsOf_respelledOf (o : Origin) (parent : Option String) (scope : String) :
    ∀ ms : List MessageDescriptor,
    symbolsOf o parent (respelledOf spell scope ms) = symbolsOf o parent ms
  | [] => rfl
  | m :: ms => by
    have name : (m.respelled spell scope).name = m.name := by
      rw [toMessageDecl_respelled]
      rfl
    rw [respelledOf, symbolsOf, symbolsOf, name, innerSymbols_respelled o _ scope m,
      symbolsOf_respelledOf o parent scope ms]

end

mutual

theorem all_respelled (scope : String) : ∀ m : MessageDescriptor,
    (m.respelled spell scope).all scope =
      (m.all scope).map fun p => (p.1, p.2.respelled spell p.1)
  | ⟨d, nested⟩ => by
    rw [respelled, all, all, List.map_cons]
    exact congrArg _ (allOf_respelledOf (Name.join scope d.name) nested)

theorem allOf_respelledOf (scope : String) : ∀ ms : List MessageDescriptor,
    allOf scope (respelledOf spell scope ms) =
      (allOf scope ms).map fun p => (p.1, p.2.respelled spell p.1)
  | [] => rfl
  | m :: ms => by
    rw [respelledOf, allOf, allOf, List.map_append, all_respelled scope m,
      allOf_respelledOf scope ms]

end

end MessageDescriptor

namespace FileDescriptor

theorem symbols_respelled (o : Origin) (d : FileDescriptor) :
    (d.respelled spell).symbols o = d.symbols o := by
  rw [symbols, symbols, respelled]
  simp only [MessageDescriptor.symbolsOf_respelledOf, List.map_map]
  rfl

/-- A file declares the same when it is respelled. -/
theorem keys_respelled (d : FileDescriptor) : (d.respelled spell).keys = d.keys := by
  have keys : ((d.respelled spell).symbols (d.source .standard).origin).map Symbol.key =
      (d.respelled spell).keys := map_key_symbols rfl rfl
  rw [← keys, symbols_respelled]
  exact map_key_symbols rfl rfl

/-- A file lacks nothing that it did not lack before it was respelled. -/
theorem Sound.respelled {d : FileDescriptor} (hd : d.Sound) : (d.respelled spell).Sound := by
  have field {scope : String} {f : FieldDescriptor} (hf : f.Sound) :
      (f.respelled spell scope).Sound := ⟨hf.name, hf.number, hf.kind, hf.label⟩
  constructor
  · exact hd.name
  · have messages : (d.respelled spell).allMessages =
        d.allMessages.map fun p => (p.1, p.2.respelled spell p.1) :=
      MessageDescriptor.allOf_respelledOf spell d.package d.messages
    rw [messages]
    refine List.forall_mem_map.mpr fun p hp => ?_
    have hm := hd.messages p hp
    refine ⟨hm.name, hm.oneofs, List.forall_mem_map.mpr fun f hf => ?_, hm.enums,
      List.forall_mem_map.mpr fun x hx => field (hm.extensions x hx)⟩
    exact ⟨(hm.fields f hf).1, field (hm.fields f hf).2⟩
  · exact hd.enums
  · refine List.forall_mem_map.mpr fun s hs => ⟨(hd.services s hs).name, ?_⟩
    exact List.forall_mem_map.mpr (hd.services s hs).methods
  · exact List.forall_mem_map.mpr fun x hx => field (hd.extensions x hx)

end FileDescriptor

end Declared

namespace Schema

variable (spell) (scheme : ImportScheme) (files : List FileDescriptor) (wanted : List String)

theorem declared_respelled : declared scheme (files.map (·.respelled spell)) wanted =
    (declared scheme files wanted).respelled spell := by
  have news : symbols scheme (files.map (·.respelled spell)) = symbols scheme files := by
    rw [symbols, List.flatMap_map]
    exact List.flatMap_congr fun d _ => d.symbols_respelled spell _
  rw [declared, news, Schema.respelled, declared, List.map_map, List.map_map]
  exact congrArg _ (List.map_congr_left fun d _ => d.node_respelled spell scheme _)

variable {scheme files wanted} {s : Schema}

/-- Files that are respelled make the respelled schema, if the names mean what they meant. -/
theorem ofFiles_respelled (h : ofFiles scheme files wanted = .ok s)
    (hk : spell.Keeps s.registry) :
    ofFiles scheme (files.map (·.respelled spell)) wanted = .ok (s.respelled spell) := by
  obtain ⟨hc, rfl⟩ := (ofFiles_eq_ok_iff scheme).mp h
  obtain ⟨⟨sound, distinct⟩, links, hwanted⟩ := (coherent_iff_linkable scheme).mp hc
  refine (ofFiles_eq_ok_iff scheme).mpr ⟨(coherent_iff_linkable scheme).mpr ⟨⟨?_, ?_⟩, ?_, ?_⟩, ?_⟩
  · exact List.forall_mem_map.mpr fun d hd => (sound d hd).respelled spell
  · rw [List.flatMap_map]
    simpa only [FileDescriptor.keys_respelled] using distinct
  · rw [declared_respelled]
    exact List.forall_mem_map.mpr fun f hf => (links f hf).respelled hk
  · rw [List.map_map]
    exact hwanted
  · rw [declared_respelled]
    simp only [linked, Schema.respelled, List.map_map, Function.comp_def]
    exact congrArg _ (List.map_congr_left fun f _ => (f.linked_respelled hk).symm)

end Schema

end Protolink
