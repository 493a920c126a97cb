import Protolink.Proofs.Mirroring

/-!
# Declaring without comments

A terse descriptor leaves out what is kept for others to read: comments, syntaxes, names in JSON,
and the marks of what is deprecated or explicitly optional.  None of it is looked at when a file is
declared, and neither is the module that is made for the file.  So a terse file is declared as the
full one, however far that goes and with the same error, and what is declared until then is the same
once it is made terse; this is so, too, if the module of every file is exchanged for another one.

`g` is what modules are exchanged for.  Nodes and symbols keep modules, and that is why the registry
is seen through a view of its own.
-/

namespace Protolink

/-! ## Terse descriptors -/

def FieldDescriptor.terse (d : FieldDescriptor) : FieldDescriptor :=
  { d with jsonName := "", proto3Optional := false }

def MessageDecl.terse (d : MessageDecl) : MessageDecl :=
  { d with
    fields := d.fields.map FieldDescriptor.terse
    extensions := d.extensions.map FieldDescriptor.terse
    deprecated := false }

namespace MessageDescriptor

mutual

def terse : MessageDescriptor → MessageDescriptor
  | ⟨d, nested⟩ => ⟨d.terse, terseOf nested⟩

def terseOf : List MessageDescriptor → List MessageDescriptor
  | [] => []
  | m :: ms => m.terse :: terseOf ms

end

@[simp] theorem toMessageDecl_terse (m : MessageDescriptor) :
    m.terse.toMessageDecl = m.toMessageDecl.terse := by
  cases m
  rw [terse]

end MessageDescriptor

/-- The file without its comments and its syntax, and without names in JSON and marks of what is
deprecated or explicitly optional, at any depth. -/
def FileDescriptor.terse (d : FileDescriptor) : FileDescriptor :=
  { d with
    messages := d.messages.map MessageDescriptor.terse
    extensions := d.extensions.map FieldDescriptor.terse
    syntaxName := "", comments := [] }

/-! ## Terse nodes -/

section Nodes

variable (g : ImportPath → ImportPath)

/-- The origin with another module. -/
def Origin.via (o : Origin) : Origin := { o with path := g o.path }

def Symbol.via (s : Symbol) : Symbol := { s with origin := s.origin.via g }

/-- The place alone. -/
def Location.terse (l : Location) : Location := { file := l.file, path := l.path }

/-- The slot of a reference that may have no meaning. -/
abbrev Slot.via (s : Slot (Option Symbol)) : Slot (Option Symbol) :=
  s.map (Option.map (Symbol.via g))

def Field.terse (f : Field) : Field :=
  { f with
    jsonName := Name.json f.name, origin := f.origin.via g, location := f.location.terse
    proto3Optional := false
    enumType := f.enumType.via g, message := f.message.via g, extendee := f.extendee.via g }

def Oneof.terse (o : Oneof) : Oneof := { o with location := o.location.terse }

def EnumValue.terse (v : EnumValue) : EnumValue := { v with location := v.location.terse }

def EnumType.terse (e : EnumType) : EnumType :=
  { e with
    origin := e.origin.via g, location := e.location.terse
    values := e.values.map EnumValue.terse }

def MessageBody.terse (b : MessageBody) : MessageBody :=
  { b with
    origin := b.origin.via g, location := b.location.terse, deprecated := false
    fields := b.fields.map (Field.terse g)
    oneofs := b.oneofs.map Oneof.terse
    ownEnums := b.ownEnums.map (EnumType.terse g)
    extensions := b.extensions.map (Field.terse g) }

def Message.terse (m : Message) : Message := m.map (MessageBody.terse g)

theorem Message.terse_eq (m : Message) :
    m.terse g = ⟨m.toMessageBody.terse g, m.nested.map (terse g)⟩ := by
  obtain ⟨body, nested⟩ := m
  rw [terse, map, mapOf_eq_map]
  rfl

def Method.terse (m : Method) : Method :=
  { m with
    location := m.location.terse
    input := m.input.map (Symbol.via g), output := m.output.map (Symbol.via g) }

def Service.terse (s : Service) : Service :=
  { s with
    origin := s.origin.via g, location := s.location.terse
    methods := s.methods.map (Method.terse g) }

def File.terse (f : File) : File :=
  { f with
    origin := f.origin.via g, syntaxName := "proto2", location := f.location.terse
    dependencies := f.dependencies.map (Symbol.via g)
    ownMessages := f.ownMessages.map (Message.terse g)
    ownEnums := f.ownEnums.map (EnumType.terse g)
    ownServices := f.ownServices.map (Service.terse g)
    extensions := f.extensions.map (Field.terse g) }

end Nodes

/-! ## Registries with other values -/

namespace Registry

variable {α β : Type} (v : α → β) (r : Registry α)

/-- The registry with another value under each key. -/
def map : Registry β := ⟨r.journal.map fun e => ⟨e.kind, e.key, v e.value⟩⟩

theorem lookup_map (kind : DeclKind) (key : String) :
    (r.map v).lookup kind key = (r.lookup kind key).map v := by
  rw [lookup, lookup, map, List.find?_map, Option.map_map, Option.map_map]
  rfl

theorem resolve_map (kinds : List DeclKind) (scope typeName : String) :
    (r.map v).resolve kinds scope typeName = (r.resolve kinds scope typeName).map v := by
  have lookupAny_map : (r.map v).lookupAny kinds = Option.map v ∘ r.lookupAny kinds := by
    funext key
    simp only [lookupAny, lookup_map, Function.comp_apply, List.map_findSome?]
    rfl
  rw [resolve, resolve, lookupAny_map, List.map_findSome?]

theorem register_map (kind : DeclKind) (key : String) (a : α) :
    (r.register kind key a).map (map v) = (r.map v).register kind key (v a) := by
  unfold register
  rw [lookup_map, Option.isSome_map]
  by_cases taken : (r.lookup kind key).isSome
  · rw [if_pos taken, if_pos taken]
    rfl
  · rw [if_neg taken, if_neg taken, Except.map, map, map, List.map_append]
    rfl

end Registry

/-- The registry with other modules. -/
abbrev Registry.via (g : ImportPath → ImportPath) (r : Registry Symbol) : Registry Symbol :=
  r.map (Symbol.via g)

/-! ## Declaring what is inside a file -/

section Declarations

variable {σ τ : Type} (g : ImportPath → ImportPath)

/-- A draft that does to the terse node, with other modules, what another one does to the node. -/
abbrev Draft.Terse (q : σ → τ) (t : Draft σ Unit) (t' : Draft τ Unit) : Prop :=
  Mirrored (Prod.map q (Registry.via g)) t t'

theorem Draft.terse_declare {q : σ → τ} (s : Symbol) :
    Draft.Terse g q (Draft.declare s) (Draft.declare (s.via g)) :=
  Draft.mirrored_declare fun r => r.register_map (Symbol.via g) s.kind s.fullName s

/-- A field that is added to a terse message is added to a oneof as it is to the message. -/
theorem MessageBody.addField_terse (b : MessageBody) (f : Field) :
    (b.addField f).terse g = (b.terse g).addField (f.terse g) := by
  have modify (i : Nat) :
      (b.oneofs.modify i fun o => { o with members := o.members ++ [b.fields.length] }).map
          Oneof.terse =
        (b.oneofs.map Oneof.terse).modify i fun o =>
          { o with members := o.members ++ [b.fields.length] } := by
    refine List.ext_getElem? fun j => ?_
    simp only [List.getElem?_map, List.getElem?_modify]
    cases b.oneofs[j]? with
    | none => rfl
    | some o => by_cases hj : i = j <;> simp [hj, Oneof.terse]
  have oneof : (f.terse g).oneof = f.oneof := rfl
  simp only [addField, terse, List.map_append, List.map_singleton, oneof, List.length_map]
  cases f.oneof with
  | none => rfl
  | some i => simp only [modify]

namespace Source

variable (src : Source)

/-- What a terse file says about where it is from. -/
def terse : Source := ⟨src.origin.via g, ⟨src.locations.file, []⟩⟩

theorem find_terse (path : List Int) :
    (src.locations.find path).terse = (src.terse g).locations.find path := by
  unfold CommentIndex.find
  cases src.locations.comments.find? (·.path == path) <;> rfl

theorem map_field_terse (parent : Option String) (oneof : Option Nat) (path : List Int)
    (d : FieldDescriptor) : (src.field parent oneof path d).map (Field.terse g) =
      (src.terse g).field parent oneof path d.terse := by
  unfold field FieldDescriptor.terse requireName
  by_cases hname : d.name = ""
  · simp only [hname, if_true]
    rfl
  by_cases hnumber : d.number ≤ 0
  · simp only [hname, hnumber, if_true, if_false]
    rfl
  cases hkind : d.kind with
  | none =>
    simp only [hname, hnumber, if_false]
    rfl
  | some kind =>
    cases hlabel : Cardinality.ofLabel? (d.label.getD 0) with
    | none =>
      simp only [hname, hnumber, hlabel, if_false]
      rfl
    | some cardinality =>
      simp only [hname, hnumber, hlabel, if_false, ← find_terse]
      rfl

variable {q : σ → τ}

theorem declareExtension_terse (parent : Option String) (path : List Int) (d : FieldDescriptor)
    {add : Field → σ → σ} {add' : Field → τ → τ}
    (hadd : ∀ x n, q (add x n) = add' (x.terse g) (q n)) :
    Draft.Terse g q (src.declareExtension parent path d add)
      ((src.terse g).declareExtension parent path d.terse add') := by
  refine Draft.mirrored_require (src.map_field_terse g parent none path d) fun x => ?_
  exact (Draft.terse_declare g x.symbol).seq fun _ => Draft.mirrored_edit (hadd x)

theorem fillEnumValue_terse (path : List Int) (i : Nat) (d : EnumValueDescriptor) :
    Draft.Terse g (EnumType.terse g) (src.fillEnumValue path i d)
      ((src.terse g).fillEnumValue path i d) := by
  refine Draft.mirrored_ask fun e => Draft.mirrored_require_self fun name => ?_
  refine Draft.mirrored_edit fun n => ?_
  simp only [← find_terse, EnumType.terse, List.map_append, List.map_singleton]
  rfl

theorem declareEnum_terse (parent : Option String) (path : List Int) (d : EnumDescriptor)
    {add : EnumType → σ → σ} {add' : EnumType → τ → τ}
    (hadd : ∀ e n, q (add e n) = add' (e.terse g) (q n)) :
    Draft.Terse g q (src.declareEnum parent path d add)
      ((src.terse g).declareEnum parent path d add') := by
  have complete : Draft.Terse g (EnumType.terse g)
      (Draft.edit fun e => { e with isComplete := true })
      (Draft.edit fun e => { e with isComplete := true }) := Draft.mirrored_edit fun _ => rfl
  have values := (Draft.mirrored_forEach_self (src.fillEnumValue_terse g path) 0 d.values).seq
    fun _ => complete
  refine Draft.mirrored_require_self fun name => ?_
  refine (Draft.terse_declare g _).seq fun _ => Draft.mirrored_adopt values ?_ hadd
  simp only [← find_terse]
  rfl

theorem fillOneof_terse (path : List Int) (i : Nat) (d : OneofDescriptor) :
    Draft.Terse g (Message.terse g) (src.fillOneof path i d)
      ((src.terse g).fillOneof path i d) := by
  refine Draft.mirrored_ask fun m => ?_
  rw [id, id, Message.terse_eq]
  refine Draft.mirrored_require_self fun name => Draft.mirrored_edit fun n => ?_
  rw [Message.terse_eq, Message.terse_eq]
  simp only [← find_terse, MessageBody.terse, List.map_append, List.map_singleton]
  rfl

theorem fillField_terse (path : List Int) (i : Nat) (d : FieldDescriptor) :
    Draft.Terse g (Message.terse g) (src.fillField path i d)
      ((src.terse g).fillField path i d.terse) := by
  refine Draft.mirrored_ask fun m => ?_
  rw [id, id, Message.terse_eq]
  have place : oneofPlace (m.toMessageBody.terse g) d.terse = oneofPlace m.toMessageBody d := by
    rw [oneofPlace, oneofPlace, MessageBody.terse, List.length_map]
    rfl
  rw [place]
  refine Draft.mirrored_require_self fun oneof => ?_
  refine Draft.mirrored_require (src.map_field_terse g (some m.fullName) oneof _ d) fun f => ?_
  refine Draft.mirrored_edit fun n => ?_
  rw [Message.terse_eq, Message.terse_eq, MessageBody.addField_terse]

theorem declareMessage_terse (parent : Option String) (path : List Int) (d : MessageDecl)
    {add : Message → σ → σ} {add' : Message → τ → τ} {fill fill' : Draft Message Unit}
    (hfill : Draft.Terse g (Message.terse g) fill fill')
    (hadd : ∀ m n, q (add m n) = add' (m.terse g) (q n)) :
    Draft.Terse g q (src.declareMessage parent path d add fill)
      ((src.terse g).declareMessage parent path d.terse add' fill') := by
  refine Draft.mirrored_require_self fun name => ?_
  refine (Draft.terse_declare g _).seq fun _ => Draft.mirrored_adopt hfill ?_ hadd
  rw [Message.terse_eq, ← find_terse]
  rfl

mutual

theorem fillMessage_terse (path : List Int) : ∀ d : MessageDescriptor,
    Draft.Terse g (Message.terse g) (src.fillMessage path d)
      ((src.terse g).fillMessage path d.terse)
  | ⟨d, nested⟩ => by
    rw [MessageDescriptor.terse, fillMessage, fillMessage]
    refine (Draft.mirrored_forEach_self (src.fillOneof_terse g path) 0 d.oneofs).seq fun _ => ?_
    refine (Draft.mirrored_forEach (src.fillField_terse g path) 0 d.fields).seq fun _ => ?_
    refine (fillNested_terse path 0 nested).seq fun _ => Draft.mirrored_ask fun m => ?_
    rw [Message.terse_eq]
    refine (Draft.mirrored_forEach_self (fun i e => src.declareEnum_terse g _ _ e ?_) 0
      d.enums).seq fun _ => ?_
    · intro e n
      rw [Message.terse_eq, Message.terse_eq]
      simp only [MessageBody.terse, List.map_append, List.map_singleton]
    refine (Draft.mirrored_forEach (fun i x => src.declareExtension_terse g _ _ x ?_) 0
      d.extensions).seq fun _ => ?_
    · intro x n
      rw [Message.terse_eq, Message.terse_eq]
      simp only [MessageBody.terse, List.map_append, List.map_singleton]
    · refine Draft.mirrored_edit fun n => ?_
      rw [Message.terse_eq, Message.terse_eq]
      rfl

theorem fillNested_terse (path : List Int) (i : Nat) : ∀ ds : List MessageDescriptor,
    Draft.Terse g (Message.terse g) (src.fillNested path i ds)
      ((src.terse g).fillNested path i (MessageDescriptor.terseOf ds))
  | [] => by
    rw [MessageDescriptor.terseOf, fillNested, fillNested]
    exact mirrored_pure ()
  | d :: ds => by
    rw [MessageDescriptor.terseOf, fillNested, fillNested]
    refine Draft.mirrored_ask fun m => ?_
    rw [Message.terse_eq g m, MessageDescriptor.toMessageDecl_terse]
    refine (src.declareMessage_terse g _ _ _ (fillMessage_terse _ d) ?_).seq fun _ =>
      fillNested_terse path (i + 1) ds
    intro n m
    rw [Message.terse_eq, Message.terse_eq g m]
    simp only [List.map_append, List.map_singleton]

end

theorem fillMethod_terse (path : List Int) (i : Nat) (d : MethodDescriptor) :
    Draft.Terse g (Service.terse g) (src.fillMethod path i d)
      ((src.terse g).fillMethod path i d) := by
  refine Draft.mirrored_ask fun s => Draft.mirrored_require_self fun name => ?_
  refine Draft.mirrored_edit fun n => ?_
  simp only [← find_terse, Service.terse, List.map_append, List.map_singleton]
  rfl

theorem declareService_terse (path : List Int) (d : ServiceDescriptor) :
    Draft.Terse g (File.terse g) (src.declareService path d)
      ((src.terse g).declareService path d) := by
  have complete : Draft.Terse g (Service.terse g)
      (Draft.edit fun s => { s with isComplete := true })
      (Draft.edit fun s => { s with isComplete := true }) := Draft.mirrored_edit fun _ => rfl
  have methods := (Draft.mirrored_forEach_self (src.fillMethod_terse g path) 0 d.methods).seq
    fun _ => complete
  refine Draft.mirrored_require_self fun name => ?_
  refine (Draft.terse_declare g _).seq fun _ => Draft.mirrored_adopt methods ?_ fun s f => ?_
  · simp only [← find_terse]
    rfl
  · simp only [File.terse, List.map_append, List.map_singleton]

end Source

end Declarations

/-! ## Declaring files -/

variable (g : ImportPath → ImportPath)

/-- The scheme with other modules. -/
def ImportScheme.via (scheme : ImportScheme) : ImportScheme :=
  fun filename package => g (scheme filename package)

namespace FileDescriptor

variable (d : FileDescriptor)

theorem blank_terse (src : Source) (generate : Bool) :
    (d.blank src generate).terse g = d.terse.blank (src.terse g) generate := by
  simp only [blank, ← Source.find_terse]
  rfl

theorem fill_terse (src : Source) :
    Draft.Terse g (File.terse g) (d.fill src) (d.terse.fill (src.terse g)) := by
  refine (Draft.mirrored_forEach (fun i m => ?_) 0 d.messages).seq fun _ => ?_
  · rw [MessageDescriptor.toMessageDecl_terse]
    refine src.declareMessage_terse g none _ _ (src.fillMessage_terse g _ m) fun n f => ?_
    simp only [File.terse, List.map_append, List.map_singleton]
  refine (Draft.mirrored_forEach_self (fun i e => src.declareEnum_terse g none _ e ?_) 0
    d.enums).seq fun _ => ?_
  · intro e f
    simp only [File.terse, List.map_append, List.map_singleton]
  refine (Draft.mirrored_forEach_self (fun i s => ?_) 0 d.services).seq fun _ => ?_
  · exact src.declareService_terse g [Tag.fileServices, (i : Int)] s
  refine (Draft.mirrored_forEach (fun i x => src.declareExtension_terse g none _ x ?_) 0
    d.extensions).seq fun _ => ?_
  · intro x f
    simp only [File.terse, List.map_append, List.map_singleton]
  · exact Draft.mirrored_edit fun f => rfl

theorem declare_terse (scheme : ImportScheme) (generate : Bool) :
    Draft.Terse g (List.map (File.terse g)) (d.declare scheme generate)
      (d.terse.declare (scheme.via g) generate) := by
  unfold declare
  by_cases name : d.name = ""
  · rw [if_pos name, if_pos (show d.terse.name = "" from name)]
    exact mirrored_throw _
  · rw [if_neg name, if_neg (show ¬d.terse.name = "" from name)]
    refine (Draft.terse_declare g _).seq fun _ => ?_
    refine Draft.mirrored_adopt (d.fill_terse g (d.source scheme)) ?_ fun f fs => ?_
    · exact d.blank_terse g (d.source scheme) generate
    · rw [List.map_append, List.map_singleton]

end FileDescriptor

end Protolink
