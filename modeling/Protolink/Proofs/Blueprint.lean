import Protolink.Declare
import Protolink.Proofs.Declared
import Protolink.Proofs.Yields

/-!
# The nodes of descriptors

The nodes that declaring a file makes, as functions of its descriptor alone, and the theorem that
declaring makes just these: a file is declared exactly if nothing in it lacks anything and all of
its keys are free, and then its node is `FileDescriptor.node` and its symbols are registered in the
order of `FileDescriptor.symbols`.

Where a descriptor lacks something, its node holds some value in that place; such a node is never
made.
-/

namespace Protolink

namespace Source

/-! ## Nodes -/

def fieldNode (src : Source) (parent : Option String) (oneof : Option Nat) (path : List Int)
    (d : FieldDescriptor) : Field where
  name := d.name
  fullName := Name.join (src.scope parent) d.name
  jsonName := Name.json (if d.jsonName = "" then d.name else d.jsonName)
  number := d.number
  kind := d.kind.getD .double
  cardinality := (Cardinality.ofLabel? (d.label.getD 0)).getD .optional
  origin := src.origin
  parent := parent
  oneof := oneof
  location := src.locations.find path
  typeName := d.typeName
  extendeeName := d.extendee
  proto3Optional := d.proto3Optional

def valueNode (src : Source) (path : List Int) (i : Nat) (d : EnumValueDescriptor) : EnumValue where
  name := d.name
  fullName := Name.join src.origin.package d.name
  number := d.number
  location := src.locations.find (path ++ [Tag.values, i])

def enumNode (src : Source) (parent : Option String) (path : List Int) (d : EnumDescriptor) :
    EnumType where
  name := d.name
  fullName := Name.join (src.scope parent) d.name
  origin := src.origin
  parent := parent
  location := src.locations.find path
  values := d.values.zipIdx.map fun v => src.valueNode path v.2 v.1
  isComplete := true

def methodNode (src : Source) (service : String) (path : List Int) (i : Nat)
    (d : MethodDescriptor) : Method where
  name := d.name
  fullName := service ++ "." ++ d.name
  clientStreaming := d.clientStreaming
  serverStreaming := d.serverStreaming
  path := "/" ++ service ++ "/" ++ d.name
  location := src.locations.find (path ++ [Tag.methods, i])
  inputName := d.input
  outputName := d.output

def serviceNode (src : Source) (path : List Int) (d : ServiceDescriptor) : Service where
  name := d.name
  fullName := Name.join src.origin.package d.name
  origin := src.origin
  location := src.locations.find path
  methods := d.methods.zipIdx.map fun m =>
    src.methodNode (Name.join src.origin.package d.name) path m.2 m.1
  isComplete := true

def oneofNode (src : Source) (message : String) (path : List Int) (i : Nat) (d : OneofDescriptor) :
    Oneof where
  name := d.name
  fullName := Name.join message d.name
  location := src.locations.find (path ++ [Tag.oneofs, i])

/-- The node of a regular field of a message. -/
def memberNode (src : Source) (message : String) (path : List Int) (i : Nat)
    (d : FieldDescriptor) : Field :=
  src.fieldNode (some message) (d.oneofIndex.map Int.toNat) (path ++ [Tag.fields, i]) d

/-- The node of a message of which nothing is read yet. -/
def blankMessage (src : Source) (parent : Option String) (path : List Int) (d : MessageDecl) :
    Message where
  name := d.name
  fullName := Name.join (src.scope parent) d.name
  origin := src.origin
  parent := parent
  location := src.locations.find path
  isMapEntry := d.isMapEntry
  deprecated := d.deprecated

/-- The node of a message without the messages nested in it. -/
def bodyNode (src : Source) (parent : Option String) (path : List Int) (d : MessageDecl) :
    MessageBody :=
  let fullName := Name.join (src.scope parent) d.name
  let blank := { (src.blankMessage parent path d).toMessageBody with
    oneofs := d.oneofs.zipIdx.map fun o => src.oneofNode fullName path o.2 o.1 }
  { (d.fields.zipIdx.map fun f => src.memberNode fullName path f.2 f.1).foldl
      MessageBody.addField blank with
    ownEnums := d.enums.zipIdx.map fun e =>
      src.enumNode (some fullName) (path ++ [Tag.enums, (e.2 : Int)]) e.1
    extensions := d.extensions.zipIdx.map fun x =>
      src.fieldNode (some fullName) none (path ++ [Tag.extensions, (x.2 : Int)]) x.1
    isComplete := true }

mutual

def messageNode (src : Source) (parent : Option String) (path : List Int) :
    MessageDescriptor → Message
  | ⟨d, nested⟩ =>
    ⟨src.bodyNode parent path d,
      nestedNodes src (Name.join (src.scope parent) d.name) path 0 nested⟩

/-- The nodes of messages nested in `message`, of which the first stands at place `i`. -/
def nestedNodes (src : Source) (message : String) (path : List Int) (i : Nat) :
    List MessageDescriptor → List Message
  | [] => []
  | d :: ds =>
    messageNode src (some message) (path ++ [Tag.nested, (i : Int)]) d ::
      nestedNodes src message path (i + 1) ds

end

end Source

/-- The node of a file. -/
def FileDescriptor.node (d : FileDescriptor) (scheme : ImportScheme) (generate : Bool) : File :=
  let src := d.source scheme
  { d.blank src generate with
    ownMessages := d.messages.zipIdx.map fun m =>
      src.messageNode none [Tag.fileMessages, (m.2 : Int)] m.1
    ownEnums := d.enums.zipIdx.map fun e => src.enumNode none [Tag.fileEnums, (e.2 : Int)] e.1
    ownServices := d.services.zipIdx.map fun s =>
      src.serviceNode [Tag.fileServices, (s.2 : Int)] s.1
    extensions := d.extensions.zipIdx.map fun x =>
      src.fieldNode none none [Tag.fileExtensions, (x.2 : Int)] x.1
    isComplete := true }

/-! ## Declaring makes these nodes -/

theorem requireName_eq_ok_iff {what place name name' : String} :
    requireName what place name = .ok name' ↔ name ≠ "" ∧ name' = name := by
  unfold requireName
  split <;> simp_all [eq_comm]

theorem Cardinality.isSome_ofLabel?_iff {label : Option Int} :
    (ofLabel? (label.getD 0)).isSome ↔
      label = some 1 ∨ label = some 2 ∨ label = some 3 := by
  cases label with
  | none => simp [ofLabel?]
  | some n =>
    simp only [Option.getD_some, Option.some.injEq]
    unfold ofLabel?
    split <;> simp_all

namespace Source

variable {σ : Type} (src : Source)

/-- A field is read exactly if it lacks nothing. -/
theorem field_eq_ok_iff {parent : Option String} {oneof : Option Nat} {path : List Int}
    {d : FieldDescriptor} {f : Field} :
    src.field parent oneof path d = .ok f ↔ d.Sound ∧ f = src.fieldNode parent oneof path d := by
  rw [FieldDescriptor.sound_iff, ← Cardinality.isSome_ofLabel?_iff]
  unfold field requireName fieldNode
  by_cases hname : d.name = ""
  · simp [hname, bind, Except.bind]
  by_cases hnumber : d.number ≤ 0
  · simp [hname, hnumber, Int.not_lt.mpr hnumber, bind, Except.bind, throw, throwThe,
      MonadExceptOf.throw]
  cases hkind : d.kind with
  | none => simp [hname, hnumber, bind, Except.bind, throw, throwThe, MonadExceptOf.throw]
  | some kind =>
    cases hlabel : Cardinality.ofLabel? (d.label.getD 0) with
    | none =>
      simp [hname, hnumber, hlabel, bind, Except.bind, throw, throwThe, MonadExceptOf.throw]
    | some cardinality =>
      simp only [hname, hnumber, hlabel, bind, Except.bind, pure, Except.pure, Except.ok.injEq,
        if_false, Option.getD_some, Option.isSome_some, ne_eq, not_false_eq_true, true_and,
        and_true, Int.not_le.mp hnumber]
      exact eq_comm

theorem oneofPlace_eq_ok_iff {owner : MessageBody} {d : FieldDescriptor} {place : Option Nat} :
    oneofPlace owner d = .ok place ↔
      (∀ i ∈ d.oneofIndex, 0 ≤ i ∧ i < owner.oneofs.length) ∧
        place = d.oneofIndex.map Int.toNat := by
  unfold oneofPlace
  cases d.oneofIndex with
  | none => simp [eq_comm]
  | some i =>
    by_cases hi : 0 ≤ i ∧ i < owner.oneofs.length
    · simp [hi, eq_comm]
    · simp only [hi, if_false, Option.mem_some_iff, forall_eq', false_and, reduceCtorEq]

/-! ## Extensions and enums -/

theorem declareExtension_produces (parent : Option String) (path : List Int) (d : FieldDescriptor)
    (add : Field → σ → σ) (node : σ) :
    Draft.Produces (src.declareExtension parent path d add) node d.Sound
      [src.origin.symbol .extension parent d.name]
      (add (src.fieldNode parent none path d) node) := by
  have rest := (Draft.produces_declare (src.fieldNode parent none path d).symbol node).seq
    (Draft.produces_edit (add (src.fieldNode parent none path d)) node)
  exact (Draft.produces_require (fun _ => src.field_eq_ok_iff) rest).congr (by simp) rfl rfl

theorem fillEnumValue_produces (path : List Int) (i : Nat) (d : EnumValueDescriptor)
    (e : EnumType) :
    Draft.Produces (src.fillEnumValue path i d) e (d.name ≠ "") []
      { e with values := e.values ++ [src.valueNode path i d] } := by
  have rest := Draft.produces_edit
    (fun e : EnumType => { e with values := e.values ++ [src.valueNode path i d] }) e
  exact Draft.produces_ask
    ((Draft.produces_require (fun _ => requireName_eq_ok_iff) rest).congr (by simp) rfl rfl)

theorem fillEnumValues_produces (path : List Int) (ds : List EnumValueDescriptor) (e : EnumType) :
    Draft.Produces (Draft.forEach (src.fillEnumValue path) 0 ds) e (∀ d ∈ ds, d.name ≠ "") []
      { e with values := e.values ++ ds.zipIdx.map fun d => src.valueNode path d.2 d.1 } := by
  have values := Draft.produces_forEach
    (fun vs (e : EnumType) => { e with values := e.values ++ vs }) (by simp) (by simp)
    (src.fillEnumValue_produces path) ds e
  exact values.congr Iff.rfl (by simp) rfl

theorem declareEnum_produces (parent : Option String) (path : List Int) (d : EnumDescriptor)
    (add : EnumType → σ → σ) (node : σ) :
    Draft.Produces (src.declareEnum parent path d add) node d.Sound
      [src.origin.symbol .enum parent d.name] (add (src.enumNode parent path d) node) := by
  let blank : EnumType := { src.enumNode parent path d with values := [], isComplete := false }
  have filled := (src.fillEnumValues_produces path d.values blank).seq
    (Draft.produces_edit (fun e : EnumType => { e with isComplete := true }) _)
  have rest := (Draft.produces_declare blank.symbol node).seq (Draft.produces_adopt add filled)
  refine (Draft.produces_require (fun _ => requireName_eq_ok_iff) rest).congr ?_ ?_ rfl
  · simp [EnumDescriptor.sound_iff]
  · simp [EnumType.symbol, Origin.symbol, blank, enumNode, scope]

/-! ## Messages -/

theorem fillOneof_produces (path : List Int) (i : Nat) (d : OneofDescriptor) (m : Message) :
    Draft.Produces (src.fillOneof path i d) m (d.name ≠ "") []
      { m with oneofs := m.oneofs ++ [src.oneofNode m.fullName path i d] } := by
  have rest := Draft.produces_edit
    (fun n : Message => { n with oneofs := n.oneofs ++ [src.oneofNode m.fullName path i d] }) m
  exact Draft.produces_ask
    ((Draft.produces_require (fun _ => requireName_eq_ok_iff) rest).congr (by simp) rfl rfl)

theorem fillField_produces (path : List Int) (i : Nat) (d : FieldDescriptor) (m : Message) :
    Draft.Produces (src.fillField path i d) m
      ((∀ i ∈ d.oneofIndex, 0 ≤ i ∧ i < m.oneofs.length) ∧ d.Sound) []
      { m with toMessageBody := m.addField (src.memberNode m.fullName path i d) } := by
  refine Draft.produces_ask (Draft.Produces.congr
    (Draft.produces_require (fun _ => oneofPlace_eq_ok_iff)
      (Draft.produces_require (fun _ => src.field_eq_ok_iff) (Draft.produces_edit _ m))) ?_ rfl rfl)
  rw [and_true]
  exact Iff.rfl

end Source

namespace MessageBody

@[simp] theorem addField_fullName (b : MessageBody) (f : Field) :
    (b.addField f).fullName = b.fullName := rfl

@[simp] theorem length_oneofs_addField (b : MessageBody) (f : Field) :
    (b.addField f).oneofs.length = b.oneofs.length := by
  unfold addField
  cases f.oneof <;> simp

/-- A field that is added changes a oneof in its members alone. -/
theorem map_oneofs_addField {γ : Type} {g : Oneof → γ} (b : MessageBody) (f : Field)
    (hg : ∀ (o : Oneof) (ms : List Nat), g { o with members := ms } = g o) :
    (b.addField f).oneofs.map g = b.oneofs.map g := by
  unfold addField
  cases f.oneof with
  | none => rfl
  | some i =>
    refine List.ext_getElem? fun j => ?_
    simp only [List.getElem?_map, List.getElem?_modify]
    cases b.oneofs[j]? with
    | none => rfl
    | some o =>
      by_cases h : i = j <;> simp [h, hg]

/-- What adding one field leaves alone, adding several leaves alone. -/
theorem foldl_addField_frame {γ : Type} {g : MessageBody → γ} (hg : ∀ b f, g (b.addField f) = g b)
    (b : MessageBody) (fs : List Field) : g (fs.foldl addField b) = g b := by
  induction fs generalizing b with
  | nil => rfl
  | cons f fs ih => rw [List.foldl_cons, ih, hg]

@[simp] theorem foldl_addField_fullName (b : MessageBody) (fs : List Field) :
    (fs.foldl addField b).fullName = b.fullName := foldl_addField_frame (fun _ _ => rfl) b fs

@[simp] theorem foldl_addField_ownEnums (b : MessageBody) (fs : List Field) :
    (fs.foldl addField b).ownEnums = b.ownEnums := foldl_addField_frame (fun _ _ => rfl) b fs

@[simp] theorem foldl_addField_extensions (b : MessageBody) (fs : List Field) :
    (fs.foldl addField b).extensions = b.extensions := foldl_addField_frame (fun _ _ => rfl) b fs

/-- The fields that are added follow those that are there. -/
@[simp] theorem foldl_addField_fields (b : MessageBody) (fs : List Field) :
    (fs.foldl addField b).fields = b.fields ++ fs := by
  induction fs generalizing b with
  | nil => simp
  | cons f fs ih => simp [ih, addField]

end MessageBody

namespace Source

variable {σ : Type} (src : Source)

/-- Registers a message and makes its node, if what is inside the message is filled in. -/
theorem declareMessage_produces (parent : Option String) (path : List Int) (d : MessageDecl)
    (add : Message → σ → σ) (node : σ) {fill : Draft Message Unit} {P : Prop}
    {news : List Symbol} {m : Message}
    (h : Draft.Produces fill (src.blankMessage parent path d) P news m) :
    Draft.Produces (src.declareMessage parent path d add fill) node (d.name ≠ "" ∧ P)
      (src.origin.symbol .message parent d.name :: news) (add m node) := by
  have rest := (Draft.produces_declare (src.blankMessage parent path d).symbol node).seq
    (Draft.produces_adopt add h)
  exact (Draft.produces_require (fun _ => requireName_eq_ok_iff) rest).congr (by simp) rfl rfl

theorem fillOneofs_produces (path : List Int) (ds : List OneofDescriptor) (m : Message) :
    Draft.Produces (Draft.forEach (src.fillOneof path) 0 ds) m (∀ d ∈ ds, d.name ≠ "") []
      { m with oneofs := m.oneofs ++
          ds.zipIdx.map fun d => src.oneofNode m.fullName path d.2 d.1 } := by
  have step (i : Nat) (d : OneofDescriptor) (n : Message) (hn : n.fullName = m.fullName) :
      Draft.Produces (src.fillOneof path i d) n (d.name ≠ "") []
        { n with oneofs := n.oneofs ++ [src.oneofNode m.fullName path i d] } := by
    rw [← hn]
    exact src.fillOneof_produces path i d n
  have h := Draft.produces_forEach_inv
    (fun os (n : Message) => { n with oneofs := n.oneofs ++ os })
    (fun n => by cases n; rw [List.append_nil]) (by simp) (fun n => n.fullName = m.fullName)
    (by simp)
    step ds 0 m rfl
  exact h.congr Iff.rfl (by simp) rfl

theorem fillFields_produces (path : List Int) (ds : List FieldDescriptor) (m : Message) :
    Draft.Produces (Draft.forEach (src.fillField path) 0 ds) m
      (∀ d ∈ ds, (∀ i ∈ d.oneofIndex, 0 ≤ i ∧ i < m.oneofs.length) ∧ d.Sound) []
      { m with toMessageBody := (ds.zipIdx.map fun d =>
          src.memberNode m.fullName path d.2 d.1).foldl MessageBody.addField m.toMessageBody } := by
  -- A field is read with an eye on the name and the oneofs of its message, which it leaves alone.
  have step (i : Nat) (d : FieldDescriptor) (n : Message)
      (hn : n.fullName = m.fullName ∧ n.oneofs.length = m.oneofs.length) :
      Draft.Produces (src.fillField path i d) n
        ((∀ i ∈ d.oneofIndex, 0 ≤ i ∧ i < m.oneofs.length) ∧ d.Sound) []
        { n with toMessageBody := n.addField (src.memberNode m.fullName path i d) } := by
    rw [← hn.1, ← hn.2]
    exact src.fillField_produces path i d n
  have h := Draft.produces_forEach_inv
    (fun fs (n : Message) =>
      { n with toMessageBody := fs.foldl MessageBody.addField n.toMessageBody })
    (fun n => by cases n; rfl) (by simp)
    (fun n => n.fullName = m.fullName ∧ n.oneofs.length = m.oneofs.length) (by simp)
    step ds 0 m ⟨rfl, rfl⟩
  exact h.congr Iff.rfl (by simp) rfl

theorem declareEnums_produces (scope : String) (path : List Int) (ds : List EnumDescriptor)
    (m : Message) :
    Draft.Produces (Draft.forEach (fun i e => src.declareEnum (some scope)
        (path ++ [Tag.enums, (i : Int)]) e
        fun enum (m : Message) => { m with ownEnums := m.ownEnums ++ [enum] }) 0 ds) m
      (∀ d ∈ ds, d.Sound) (ds.map fun d => src.origin.symbol .enum (some scope) d.name)
      { m with ownEnums := m.ownEnums ++ ds.zipIdx.map fun d =>
          src.enumNode (some scope) (path ++ [Tag.enums, (d.2 : Int)]) d.1 } := by
  have h := Draft.produces_forEach
    (fun es (n : Message) => { n with ownEnums := n.ownEnums ++ es })
    (fun n => by cases n; rw [List.append_nil]) (by simp)
    (fun i d n => src.declareEnum_produces (some scope) (path ++ [Tag.enums, (i : Int)]) d
      (fun enum (m : Message) => { m with ownEnums := m.ownEnums ++ [enum] }) n) ds m
  exact h.congr Iff.rfl List.map_eq_flatMap.symm rfl

theorem declareExtensions_produces (scope : String) (path : List Int) (ds : List FieldDescriptor)
    (m : Message) :
    Draft.Produces (Draft.forEach (fun i x => src.declareExtension (some scope)
        (path ++ [Tag.extensions, (i : Int)]) x
        fun extension (m : Message) => { m with extensions := m.extensions ++ [extension] }) 0 ds) m
      (∀ d ∈ ds, d.Sound) (ds.map fun d => src.origin.symbol .extension (some scope) d.name)
      { m with extensions := m.extensions ++ ds.zipIdx.map fun d =>
          src.fieldNode (some scope) none (path ++ [Tag.extensions, (d.2 : Int)]) d.1 } := by
  have h := Draft.produces_forEach
    (fun xs (n : Message) => { n with extensions := n.extensions ++ xs })
    (fun n => by cases n; rw [List.append_nil]) (by simp)
    (fun i d n => src.declareExtension_produces (some scope) (path ++ [Tag.extensions, (i : Int)])
      d (fun extension (m : Message) => { m with extensions := m.extensions ++ [extension] }) n)
    ds m
  exact h.congr Iff.rfl List.map_eq_flatMap.symm rfl

mutual

/-- What is inside a message is read exactly if none of it lacks anything. -/
theorem fillMessage_produces (parent : Option String) (path : List Int) : ∀ d : MessageDescriptor,
    Draft.Produces (src.fillMessage path d) (src.blankMessage parent path d.toMessageDecl)
      ((∀ o ∈ d.oneofs, o.name ≠ "") ∧
        (∀ f ∈ d.fields, (∀ i ∈ f.oneofIndex, 0 ≤ i ∧ i < d.oneofs.length) ∧ f.Sound) ∧
        (∀ m ∈ MessageDescriptor.allOf (Name.join (src.scope parent) d.name) d.nested, m.2.Sound) ∧
        (∀ e ∈ d.enums, e.Sound) ∧ ∀ x ∈ d.extensions, x.Sound)
      (d.innerSymbols src.origin (Name.join (src.scope parent) d.name))
      (src.messageNode parent path d)
  | ⟨d, nested⟩ => by
    refine Draft.Produces.congr ((src.fillOneofs_produces path d.oneofs _).seq
      ((src.fillFields_produces path d.fields _).seq ((fillNested_produces path 0 nested _).seq
        (Draft.produces_ask ((src.declareEnums_produces _ path d.enums _).seq
          ((src.declareExtensions_produces _ path d.extensions _).seq
            (Draft.produces_edit _ _))))))) ?_ ?_ ?_
    · simp [blankMessage]
    · simp [MessageDescriptor.innerSymbols, MessageDecl.symbols, blankMessage]
    · simp [messageNode, bodyNode, blankMessage]

theorem fillNested_produces (path : List Int) (i : Nat) : ∀ (ds : List MessageDescriptor)
    (m : Message),
    Draft.Produces (src.fillNested path i ds) m
      (∀ p ∈ MessageDescriptor.allOf m.fullName ds, p.2.Sound)
      (MessageDescriptor.symbolsOf src.origin (some m.fullName) ds)
      { m with nested := m.nested ++ src.nestedNodes m.fullName path i ds }
  | [], ⟨_, _⟩ => Draft.produces_pure.congr (by simp [MessageDescriptor.allOf]) rfl
    (by rw [nestedNodes, List.append_nil])
  | ⟨d, nested⟩ :: ds, m => by
    refine Draft.Produces.congr (Draft.produces_ask ((src.declareMessage_produces _ _ _ _ m
      (fillMessage_produces (some m.fullName) _ ⟨d, nested⟩)).seq
        (fillNested_produces path (i + 1) ds _))) ?_ ?_ ?_
    · simp only [MessageDescriptor.allOf, List.forall_mem_append,
        MessageDescriptor.forall_mem_all_iff, MessageDecl.sound_iff, scope, Option.getD_some]
      tauto
    · simp [MessageDescriptor.symbolsOf, scope]
    · simp [nestedNodes]

end

/-- A message and all that is inside it. -/
theorem declareTree_produces (parent : Option String) (path : List Int) (d : MessageDescriptor)
    (add : Message → σ → σ) (node : σ) :
    Draft.Produces
      (src.declareMessage parent path d.toMessageDecl add (src.fillMessage path d)) node
      (∀ p ∈ d.all (src.scope parent), p.2.Sound)
      (src.origin.symbol .message parent d.name ::
        d.innerSymbols src.origin (Name.join (src.scope parent) d.name))
      (add (src.messageNode parent path d) node) := by
  refine (src.declareMessage_produces _ _ _ _ node
    (src.fillMessage_produces parent path d)).congr ?_ rfl rfl
  rw [MessageDescriptor.forall_mem_all_iff, MessageDecl.sound_iff]
  tauto

/-! ## Services -/

theorem fillMethod_produces (path : List Int) (i : Nat) (d : MethodDescriptor) (s : Service) :
    Draft.Produces (src.fillMethod path i d) s (d.name ≠ "") []
      { s with methods := s.methods ++ [src.methodNode s.fullName path i d] } := by
  have rest := Draft.produces_edit (fun t : Service =>
    { t with methods := t.methods ++ [src.methodNode s.fullName path i d] }) s
  exact Draft.produces_ask
    ((Draft.produces_require (fun _ => requireName_eq_ok_iff) rest).congr (by simp) rfl rfl)

theorem fillMethods_produces (path : List Int) (ds : List MethodDescriptor) (s : Service) :
    Draft.Produces (Draft.forEach (src.fillMethod path) 0 ds) s (∀ d ∈ ds, d.name ≠ "") []
      { s with methods := s.methods ++
          ds.zipIdx.map fun d => src.methodNode s.fullName path d.2 d.1 } := by
  have step (i : Nat) (d : MethodDescriptor) (t : Service) (ht : t.fullName = s.fullName) :
      Draft.Produces (src.fillMethod path i d) t (d.name ≠ "") []
        { t with methods := t.methods ++ [src.methodNode s.fullName path i d] } := by
    rw [← ht]
    exact src.fillMethod_produces path i d t
  have methods := Draft.produces_forEach_inv
    (fun ms (t : Service) => { t with methods := t.methods ++ ms }) (by simp) (by simp)
    (fun t => t.fullName = s.fullName) (by simp) step ds 0 s rfl
  exact methods.congr Iff.rfl (by simp) rfl

theorem declareService_produces (path : List Int) (d : ServiceDescriptor) (f : File) :
    Draft.Produces (src.declareService path d) f d.Sound
      [src.origin.symbol .service none d.name]
      { f with ownServices := f.ownServices ++ [src.serviceNode path d] } := by
  let blank : Service := { src.serviceNode path d with methods := [], isComplete := false }
  have filled := (src.fillMethods_produces path d.methods blank).seq
    (Draft.produces_edit (fun s : Service => { s with isComplete := true }) _)
  have rest := (Draft.produces_declare blank.symbol f).seq (Draft.produces_adopt
    (fun (s : Service) (f : File) => { f with ownServices := f.ownServices ++ [s] }) filled)
  refine (Draft.produces_require (fun _ => requireName_eq_ok_iff) rest).congr ?_ ?_ rfl
  · simp [ServiceDescriptor.sound_iff]
  · simp [Service.symbol, Origin.symbol, blank, serviceNode]

end Source

/-! ## Files -/

namespace FileDescriptor

variable (d : FileDescriptor) (scheme : ImportScheme) (generate : Bool)

theorem declareMessages_produces (src : Source) (ms : List MessageDescriptor) (f : File) :
    Draft.Produces (Draft.forEach (fun (i : Nat) m =>
        let path : List Int := [Tag.fileMessages, i]
        src.declareMessage none path m.toMessageDecl
          (fun n f => { f with ownMessages := f.ownMessages ++ [n] }) (src.fillMessage path m))
        0 ms) f
      (∀ m ∈ ms, ∀ p ∈ m.all (src.scope none), p.2.Sound)
      (ms.flatMap fun m => src.origin.symbol .message none m.name ::
        m.innerSymbols src.origin (Name.join (src.scope none) m.name))
      { f with ownMessages := f.ownMessages ++ ms.zipIdx.map fun m =>
          src.messageNode none [Tag.fileMessages, (m.2 : Int)] m.1 } :=
  Draft.produces_forEach
    (fun ms (f : File) => { f with ownMessages := f.ownMessages ++ ms }) (by simp) (by simp)
    (fun i m f => src.declareTree_produces none [Tag.fileMessages, (i : Int)] m
      (fun n (f : File) => { f with ownMessages := f.ownMessages ++ [n] }) f) ms f

theorem declareFileEnums_produces (src : Source) (es : List EnumDescriptor) (f : File) :
    Draft.Produces (Draft.forEach (fun (i : Nat) e => src.declareEnum none
        [Tag.fileEnums, (i : Int)] e
        fun enum (f : File) => { f with ownEnums := f.ownEnums ++ [enum] }) 0 es) f
      (∀ e ∈ es, e.Sound) (es.flatMap fun e => [src.origin.symbol .enum none e.name])
      { f with ownEnums := f.ownEnums ++ es.zipIdx.map fun e =>
          src.enumNode none [Tag.fileEnums, (e.2 : Int)] e.1 } :=
  Draft.produces_forEach
    (fun es (f : File) => { f with ownEnums := f.ownEnums ++ es }) (by simp) (by simp)
    (fun i e f => src.declareEnum_produces none [Tag.fileEnums, (i : Int)] e
      (fun n (f : File) => { f with ownEnums := f.ownEnums ++ [n] }) f) es f

theorem declareServices_produces (src : Source) (ss : List ServiceDescriptor) (f : File) :
    Draft.Produces (Draft.forEach (fun (i : Nat) s => src.declareService
        [Tag.fileServices, (i : Int)] s) 0 ss) f
      (∀ s ∈ ss, s.Sound) (ss.flatMap fun s => [src.origin.symbol .service none s.name])
      { f with ownServices := f.ownServices ++ ss.zipIdx.map fun s =>
          src.serviceNode [Tag.fileServices, (s.2 : Int)] s.1 } :=
  Draft.produces_forEach
    (fun ss (f : File) => { f with ownServices := f.ownServices ++ ss }) (by simp) (by simp)
    (fun i s f => src.declareService_produces [Tag.fileServices, (i : Int)] s f) ss f

theorem declareFileExtensions_produces (src : Source) (xs : List FieldDescriptor) (f : File) :
    Draft.Produces (Draft.forEach (fun (i : Nat) x => src.declareExtension none
        [Tag.fileExtensions, (i : Int)] x
        fun extension (f : File) => { f with extensions := f.extensions ++ [extension] }) 0 xs) f
      (∀ x ∈ xs, x.Sound) (xs.flatMap fun x => [src.origin.symbol .extension none x.name])
      { f with extensions := f.extensions ++ xs.zipIdx.map fun x =>
          src.fieldNode none none [Tag.fileExtensions, (x.2 : Int)] x.1 } :=
  Draft.produces_forEach
    (fun xs (f : File) => { f with extensions := f.extensions ++ xs }) (by simp) (by simp)
    (fun i x f => src.declareExtension_produces none [Tag.fileExtensions, (i : Int)] x
      (fun n (f : File) => { f with extensions := f.extensions ++ [n] }) f) xs f

theorem fill_produces (src : Source) (f : File) :
    Draft.Produces (d.fill src) f
      ((∀ p ∈ MessageDescriptor.allOf src.origin.package d.messages, p.2.Sound) ∧
        (∀ e ∈ d.enums, e.Sound) ∧ (∀ s ∈ d.services, s.Sound) ∧ ∀ x ∈ d.extensions, x.Sound)
      (d.symbols src.origin).tail
      { f with
        ownMessages := f.ownMessages ++ d.messages.zipIdx.map fun m =>
          src.messageNode none [Tag.fileMessages, (m.2 : Int)] m.1
        ownEnums := f.ownEnums ++ d.enums.zipIdx.map fun e =>
          src.enumNode none [Tag.fileEnums, (e.2 : Int)] e.1
        ownServices := f.ownServices ++ d.services.zipIdx.map fun s =>
          src.serviceNode [Tag.fileServices, (s.2 : Int)] s.1
        extensions := f.extensions ++ d.extensions.zipIdx.map fun x =>
          src.fieldNode none none [Tag.fileExtensions, (x.2 : Int)] x.1
        isComplete := true } := by
  refine ((declareMessages_produces src d.messages f).seq
    ((declareFileEnums_produces src d.enums _).seq ((declareServices_produces src d.services _).seq
      ((declareFileExtensions_produces src d.extensions _).seq
        (Draft.produces_edit (fun f : File => { f with isComplete := true }) _))))).congr ?_ ?_ rfl
  · simp only [MessageDescriptor.allOf_eq_flatMap, List.forall_mem_flatMap, Source.scope,
      Option.getD_none, and_true]
  · simp [symbols, MessageDescriptor.symbolsOf_eq_flatMap, Source.scope, List.map_eq_flatMap]

/-- A file is declared exactly if it is sound and all of its keys are free. -/
theorem declare_produces (fs : List File) :
    Draft.Produces (d.declare scheme generate) fs d.Sound (d.symbols (d.source scheme).origin)
      (fs ++ [d.node scheme generate]) := by
  by_cases hn : d.name = ""
  · intro r s'
    have hs : ¬d.Sound := fun h => h.name hn
    simp [declare, hn, hs, Yields.bind_eq_ok_iff, Yields.throw_ne_ok]
  · have rest := (Draft.produces_declare (d.blank (d.source scheme) generate).symbol fs).seq
      (Draft.produces_adopt (fun f fs => fs ++ [f])
        (d.fill_produces (d.source scheme) (d.blank (d.source scheme) generate)))
    unfold declare
    simp only [hn, if_false]
    refine rest.congr ?_ rfl rfl
    simp [sound_iff, hn, allMessages, source]

end FileDescriptor

end Protolink
