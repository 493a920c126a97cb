import Protolink.Proofs.Becoming
import Protolink.Proofs.Blueprint

/-!
# What declaring leaves

A file that has a fault is declared as far as it goes, and what is declared stays.  `Upholds I t`
says of a draft `t`, whether it goes through or not, that it keeps a property `I` of its node, that
it only adds to the registry, each declaration under its own name, and that it fails only with a
fault of the descriptors.  There is one rule for each way in which drafts are put together.

The property that matters is that nodes are blank: while files are declared, no reference is
followed, however far it goes.
-/

namespace Protolink

variable {σ β α : Type}

namespace Draft

/-- A property of the node is kept, and the registry only grows. -/
structure Grows (I : σ → Prop) (s t : σ × Registry Symbol) : Prop where
  node : I s.1 → I t.1
  registry : ∃ news, t.2 = s.2.extend news

theorem Grows.refl {I : σ → Prop} (s : σ × Registry Symbol) : Grows I s s :=
  ⟨fun h => h, [], (Registry.extend_nil s.2).symm⟩

theorem Grows.trans {I : σ → Prop} (s t u : σ × Registry Symbol) (h : Grows I s t)
    (h' : Grows I t u) : Grows I s u := by
  obtain ⟨xs, hx⟩ := h.registry
  obtain ⟨ys, hy⟩ := h'.registry
  refine ⟨fun hs => h'.node (h.node hs), xs ++ ys, ?_⟩
  rw [hy, hx, Registry.extend_append]

def Upholds (I : σ → Prop) (t : Draft σ α) : Prop := ∀ s, Grows I s (leaves t s) ∧ Faults t s

section Rules

variable {I : σ → Prop}

theorem upholds_pure (a : α) : Upholds I (pure a) :=
  fun s => ⟨.refl s, faults_of_ok rfl⟩

theorem Upholds.seq {t : Draft σ α} {u : α → Draft σ β} (ht : Upholds I t)
    (hu : ∀ a, Upholds I (u a)) : Upholds I (t >>= u) := by
  intro s
  constructor
  · exact Moves.seq Grows.trans (fun s => (ht s).1) (fun a s => (hu a s).1) s
  · exact (ht s).2.seq fun a s' _ => (hu a s').2

/-- What is required is a fault, or else the draft goes on with it. -/
theorem upholds_require {x : Except Error α} {k : α → Draft σ β}
    (hx : ∀ e, x = .error e → e.isDescriptorFault = true)
    (hk : ∀ a, x = .ok a → Upholds I (k a)) : Upholds I (require x >>= k) := by
  cases x with
  | ok a => exact hk a rfl
  | error e =>
    exact fun s => ⟨.refl s, faults_of_error rfl (hx e rfl)⟩

theorem upholds_ask {q : σ → α} {k : α → Draft σ β} (hk : ∀ a, Upholds I (k a)) :
    Upholds I (ask q >>= k) :=
  Upholds.seq (fun s => ⟨.refl s, faults_of_ok rfl⟩) hk

theorem upholds_edit {f : σ → σ} (h : ∀ n, I n → I (f n)) : Upholds I (edit f) :=
  fun s => ⟨⟨h s.1, [], (Registry.extend_nil s.2).symm⟩, faults_of_ok rfl⟩

theorem upholds_declare (s : Symbol) : Upholds I (declare s) := by
  rintro ⟨node, r⟩
  cases h : r.declare s with
  | ok r' =>
    have done : declare s (node, r) = .ok () (node, r') := by simp only [declare, h]
    obtain ⟨-, rfl⟩ := Registry.declare_eq_ok_iff.mp h
    rw [leaves, done]
    exact ⟨⟨fun hn => hn, [s], rfl⟩, faults_of_ok done⟩
  | error e =>
    have failed : declare s (node, r) = .error e (node, r) := by simp only [declare, h]
    obtain ⟨-, rfl⟩ := Registry.register_eq_error_iff.mp h
    rw [leaves, failed]
    exact ⟨.refl _, faults_of_error failed rfl⟩

/-- A part of the node is drafted for itself. -/
theorem upholds_adopt {J : β → Prop} {add : β → σ → σ} {child : β} {draft : Draft β Unit}
    (h : Upholds J draft) (hchild : J child) (hadd : ∀ c n, J c → I n → I (add c n)) :
    Upholds I (adopt add child draft) := by
  rintro ⟨node, r⟩
  obtain ⟨part, faults⟩ := h (child, r)
  cases hd : draft (child, r) with
  | ok _ s =>
    have done : adopt add child draft (node, r) = .ok () (add s.1 node, s.2) := by
      simp only [adopt, hd]
    rw [leaves, hd] at part
    rw [leaves, done]
    exact ⟨⟨fun hn => hadd _ _ (part.node hchild) hn, part.registry⟩, faults_of_ok done⟩
  | error e s =>
    have failed : adopt add child draft (node, r) = .error e (add s.1 node, s.2) := by
      simp only [adopt, hd]
    rw [leaves, hd] at part
    rw [leaves, failed]
    refine ⟨⟨fun hn => hadd _ _ (part.node hchild) hn, part.registry⟩, ?_⟩
    exact faults_of_error failed (faults _ _ hd)

theorem upholds_forEach {step : Nat → α → Draft σ Unit} (h : ∀ i a, Upholds I (step i a))
    (i : Nat) (as : List α) : Upholds I (forEach step i as) := by
  induction as generalizing i with
  | nil => exact upholds_pure ()
  | cons a as ih => exact (h i a).seq fun _ => ih (i + 1)

end Rules

end Draft

/-! ## Blank nodes -/

/-- No reference of the field is followed. -/
structure Field.Blank (f : Field) : Prop where
  enumType : f.enumType = ⟨f.fullName, "enum type", none⟩
  message : f.message = ⟨f.fullName, "message type", none⟩
  extendee : f.extendee = ⟨f.fullName, "extendee", none⟩

namespace Field.Blank

variable {f : Field} (h : f.Blank)

include h

theorem isOpen : f.IsOpen :=
  ⟨congrArg Slot.value? h.enumType, congrArg Slot.value? h.message, congrArg Slot.value? h.extendee⟩

theorem coherent : f.Coherent := by
  constructor
  · rw [h.enumType]
    exact Slot.awaits_empty _ _
  · rw [h.message]
    exact Slot.awaits_empty _ _
  · rw [h.extendee]
    exact Slot.awaits_empty _ _
  · rw [h.enumType, h.message]
    rfl
  · rw [h.extendee]
    exact fun hx => absurd hx nofun

end Field.Blank

/-- Neither type of the method is followed. -/
structure Method.Blank (m : Method) : Prop where
  input : m.input = ⟨m.fullName, "input", none⟩
  output : m.output = ⟨m.fullName, "output", none⟩

theorem Method.Blank.coherent {m : Method} (h : m.Blank) : m.Coherent := by
  constructor
  · rw [h.input]
    exact Slot.awaits_empty _ _
  · rw [h.output]
    exact Slot.awaits_empty _ _
  · rw [h.input, h.output]
    rfl

/-- No reference in the body is followed. -/
@[mk_iff]
structure MessageBody.Blank (b : MessageBody) : Prop where
  fields : ∀ f ∈ b.fields, f.Blank
  extensions : ∀ x ∈ b.extensions, x.Blank

/-- No reference in the message is followed, at any depth. -/
def Message.Blank (m : Message) : Prop := ∀ n ∈ m.all, n.toMessageBody.Blank

theorem Message.blank_iff {m : Message} :
    m.Blank ↔ m.toMessageBody.Blank ∧ ∀ n ∈ m.nested, n.Blank := by
  rw [Blank, forall_mem_all_iff, allOf_eq_flatMap, List.forall_mem_flatMap]
  exact Iff.rfl

theorem Message.blank_of_empty {m : Message} (fields : m.fields = [])
    (extensions : m.extensions = []) (nested : m.nested = []) : m.Blank := by
  rw [blank_iff, MessageBody.blank_iff, fields, extensions, nested]
  exact ⟨⟨List.forall_mem_nil _, List.forall_mem_nil _⟩, List.forall_mem_nil _⟩

/-- Oneofs, enums and whether the message is complete do not matter. -/
theorem Message.Blank.congr {m n : Message} (h : m.Blank) (fields : n.fields = m.fields)
    (extensions : n.extensions = m.extensions) (nested : n.nested = m.nested) : n.Blank := by
  rw [blank_iff, MessageBody.blank_iff] at h ⊢
  rwa [fields, extensions, nested]

/-- No reference in the file is followed. -/
@[mk_iff]
structure File.Blank (f : File) : Prop where
  messages : ∀ m ∈ f.ownMessages, m.Blank
  services : ∀ s ∈ f.ownServices, ∀ m ∈ s.methods, m.Blank
  extensions : ∀ x ∈ f.extensions, x.Blank

theorem FileDescriptor.blank_blank (d : FileDescriptor) (src : Source) (generate : Bool) :
    (d.blank src generate).Blank := by
  rw [File.blank_iff, blank]
  exact ⟨List.forall_mem_nil _, List.forall_mem_nil _, List.forall_mem_nil _⟩

/-- What is added to a list of blank nodes is blank as well. -/
theorem forall_mem_snoc {P : β → Prop} {bs : List β} {b : β} (h : ∀ c ∈ bs, P c) (hb : P b) :
    ∀ c ∈ bs ++ [b], P c := by
  rw [List.forall_mem_append, List.forall_mem_singleton]
  exact ⟨h, hb⟩

/-! ## Declaring leaves nodes blank -/

theorem requireName_faults {what place name : String} {e : Error}
    (h : requireName what place name = .error e) : e.isDescriptorFault = true := by
  unfold requireName at h
  split at h
  · obtain rfl := Except.error.inj h
    rfl
  · exact absurd h nofun

namespace Source

variable (src : Source)

theorem oneofPlace_faults {owner : MessageBody} {d : FieldDescriptor} {e : Error}
    (h : oneofPlace owner d = .error e) : e.isDescriptorFault = true := by
  unfold oneofPlace at h
  split at h
  · exact absurd h nofun
  · split at h
    · exact absurd h nofun
    · obtain rfl := Except.error.inj h
      rfl

theorem field_faults {parent : Option String} {oneof : Option Nat} {path : List Int}
    {d : FieldDescriptor} {e : Error} (h : src.field parent oneof path d = .error e) :
    e.isDescriptorFault = true := by
  unfold field requireName at h
  by_cases hname : d.name = ""
  · simp only [hname, if_true, bind, Except.bind, Except.error.injEq] at h
    rw [← h, Error.isDescriptorFault]
  by_cases hnumber : d.number ≤ 0
  · simp only [hname, hnumber, if_true, if_false, bind, Except.bind, throw, throwThe,
      MonadExceptOf.throw, Except.error.injEq] at h
    rw [← h, Error.isDescriptorFault]
  cases hkind : d.kind with
  | none =>
    simp only [hname, hnumber, hkind, if_false, bind, Except.bind, throw, throwThe,
      MonadExceptOf.throw, Except.error.injEq] at h
    rw [← h, Error.isDescriptorFault]
  | some kind =>
    cases hlabel : Cardinality.ofLabel? (d.label.getD 0) <;>
      simp only [hname, hnumber, hkind, hlabel, if_false, bind, Except.bind, throw, throwThe,
        MonadExceptOf.throw, pure, Except.pure, Except.error.injEq, reduceCtorEq] at h
    rw [← h, Error.isDescriptorFault]

/-- The node that is made of a field is blank. -/
theorem blank_of_field {parent : Option String} {oneof : Option Nat} {path : List Int}
    {d : FieldDescriptor} {f : Field} (h : src.field parent oneof path d = .ok f) : f.Blank := by
  obtain ⟨-, rfl⟩ := src.field_eq_ok_iff.mp h
  exact ⟨rfl, rfl, rfl⟩

/-! ### Extensions and enums -/

theorem declareExtension_upholds {I : σ → Prop} (parent : Option String) (path : List Int)
    (d : FieldDescriptor) {add : Field → σ → σ} (hadd : ∀ x n, x.Blank → I n → I (add x n)) :
    Draft.Upholds I (src.declareExtension parent path d add) := by
  refine Draft.upholds_require (fun _ => src.field_faults) fun x hx => ?_
  refine (Draft.upholds_declare x.symbol).seq fun _ => ?_
  exact Draft.upholds_edit fun n hn => hadd x n (src.blank_of_field hx) hn

theorem fillEnumValue_upholds (path : List Int) (i : Nat) (d : EnumValueDescriptor) :
    Draft.Upholds (fun _ => True) (src.fillEnumValue path i d) := by
  refine Draft.upholds_ask fun e => ?_
  refine Draft.upholds_require (fun _ => requireName_faults) fun name _ => ?_
  exact Draft.upholds_edit fun _ _ => trivial

theorem declareEnum_upholds {I : σ → Prop} (parent : Option String) (path : List Int)
    (d : EnumDescriptor) {add : EnumType → σ → σ} (hadd : ∀ e n, I n → I (add e n)) :
    Draft.Upholds I (src.declareEnum parent path d add) := by
  have values := (Draft.upholds_forEach (src.fillEnumValue_upholds path) 0 d.values).seq fun _ =>
    Draft.upholds_edit (f := fun e : EnumType => { e with isComplete := true }) fun _ _ => trivial
  refine Draft.upholds_require (fun _ => requireName_faults) fun name _ => ?_
  refine (Draft.upholds_declare _).seq fun _ => ?_
  exact Draft.upholds_adopt values trivial fun e n _ => hadd e n

/-! ### Messages -/

theorem fillOneof_upholds (path : List Int) (i : Nat) (d : OneofDescriptor) :
    Draft.Upholds Message.Blank (src.fillOneof path i d) := by
  refine Draft.upholds_ask fun m => ?_
  refine Draft.upholds_require (fun _ => requireName_faults) fun name _ => ?_
  exact Draft.upholds_edit fun n hn => hn.congr rfl rfl rfl

theorem fillField_upholds (path : List Int) (i : Nat) (d : FieldDescriptor) :
    Draft.Upholds Message.Blank (src.fillField path i d) := by
  refine Draft.upholds_ask fun m => ?_
  refine Draft.upholds_require (fun _ => oneofPlace_faults) fun oneof _ => ?_
  refine Draft.upholds_require (fun _ => src.field_faults) fun f hf => ?_
  refine Draft.upholds_edit fun n hn => ?_
  obtain ⟨body, nested⟩ := Message.blank_iff.mp hn
  have fields := forall_mem_snoc body.fields (src.blank_of_field hf)
  exact Message.blank_iff.mpr ⟨⟨fields, body.extensions⟩, nested⟩

theorem declareMessage_upholds {I : σ → Prop} (parent : Option String) (path : List Int)
    (d : MessageDecl) {add : Message → σ → σ} {fill : Draft Message Unit}
    (hfill : Draft.Upholds Message.Blank fill) (hadd : ∀ m n, m.Blank → I n → I (add m n)) :
    Draft.Upholds I (src.declareMessage parent path d add fill) := by
  refine Draft.upholds_require (fun _ => requireName_faults) fun name _ => ?_
  refine (Draft.upholds_declare _).seq fun _ => ?_
  exact Draft.upholds_adopt hfill (Message.blank_of_empty rfl rfl rfl) hadd

mutual

theorem fillMessage_upholds (path : List Int) : ∀ d : MessageDescriptor,
    Draft.Upholds Message.Blank (src.fillMessage path d)
  | ⟨d, nested⟩ => by
    rw [fillMessage]
    refine (Draft.upholds_forEach (src.fillOneof_upholds path) 0 d.oneofs).seq fun _ => ?_
    refine (Draft.upholds_forEach (src.fillField_upholds path) 0 d.fields).seq fun _ => ?_
    refine (fillNested_upholds path 0 nested).seq fun _ => Draft.upholds_ask fun scope => ?_
    refine (Draft.upholds_forEach (fun i e => src.declareEnum_upholds _ _ e ?_) 0 d.enums).seq
      fun _ => ?_
    · intro e m hm
      exact hm.congr rfl rfl rfl
    refine (Draft.upholds_forEach (fun i x => src.declareExtension_upholds _ _ x ?_) 0
      d.extensions).seq fun _ => ?_
    · intro x m hx hm
      obtain ⟨body, nested⟩ := Message.blank_iff.mp hm
      have extensions := forall_mem_snoc body.extensions hx
      exact Message.blank_iff.mpr ⟨⟨body.fields, extensions⟩, nested⟩
    · exact Draft.upholds_edit fun m hm => hm.congr rfl rfl rfl

theorem fillNested_upholds (path : List Int) (i : Nat) : ∀ ds : List MessageDescriptor,
    Draft.Upholds Message.Blank (src.fillNested path i ds)
  | [] => by
    rw [fillNested]
    exact Draft.upholds_pure ()
  | d :: ds => by
    rw [fillNested]
    refine Draft.upholds_ask fun scope => ?_
    refine (src.declareMessage_upholds _ _ _ (fillMessage_upholds _ d) ?_).seq fun _ =>
      fillNested_upholds path (i + 1) ds
    intro n m hn hm
    obtain ⟨body, nested⟩ := Message.blank_iff.mp hm
    exact Message.blank_iff.mpr ⟨⟨body.fields, body.extensions⟩, forall_mem_snoc nested hn⟩

end

/-! ### Services -/

theorem fillMethod_upholds (path : List Int) (i : Nat) (d : MethodDescriptor) :
    Draft.Upholds (fun s : Service => ∀ m ∈ s.methods, m.Blank) (src.fillMethod path i d) := by
  refine Draft.upholds_ask fun s => ?_
  refine Draft.upholds_require (fun _ => requireName_faults) fun name _ => ?_
  exact Draft.upholds_edit fun s hs => forall_mem_snoc hs ⟨rfl, rfl⟩

theorem declareService_upholds (path : List Int) (d : ServiceDescriptor) :
    Draft.Upholds File.Blank (src.declareService path d) := by
  have methods := (Draft.upholds_forEach (src.fillMethod_upholds path) 0 d.methods).seq fun _ =>
    Draft.upholds_edit (f := fun s : Service => { s with isComplete := true }) fun _ hs => hs
  refine Draft.upholds_require (fun _ => requireName_faults) fun name _ => ?_
  refine (Draft.upholds_declare _).seq fun _ => ?_
  refine Draft.upholds_adopt methods (List.forall_mem_nil _) fun s f hs hf => ?_
  exact { hf with services := forall_mem_snoc hf.services hs }

end Source

/-! ## Files -/

namespace FileDescriptor

variable (d : FileDescriptor)

theorem fill_upholds (src : Source) : Draft.Upholds File.Blank (d.fill src) := by
  refine (Draft.upholds_forEach (fun i m => src.declareMessage_upholds none _ _
    (src.fillMessage_upholds _ m) ?_) 0 d.messages).seq fun _ => ?_
  · intro m f hm hf
    exact { hf with messages := forall_mem_snoc hf.messages hm }
  refine (Draft.upholds_forEach (fun i e => src.declareEnum_upholds none _ e ?_) 0 d.enums).seq
    fun _ => ?_
  · intro e f hf
    exact { hf with }
  refine (Draft.upholds_forEach (fun i s => src.declareService_upholds _ s) 0 d.services).seq
    fun _ => ?_
  refine (Draft.upholds_forEach (fun i x => src.declareExtension_upholds none _ x ?_) 0
    d.extensions).seq fun _ => ?_
  · intro x f hx hf
    exact { hf with extensions := forall_mem_snoc hf.extensions hx }
  · exact Draft.upholds_edit fun f hf => { hf with }

/-- Whatever property the other files have, a file that is declared is blank. -/
theorem declare_upholds (scheme : ImportScheme) (generate : Bool) {I : List File → Prop}
    (hadd : ∀ f fs, f.Blank → I fs → I (fs ++ [f])) :
    Draft.Upholds I (d.declare scheme generate) := by
  have rest := (Draft.upholds_declare (I := I) (d.blank (d.source scheme) generate).symbol).seq
    fun _ => Draft.upholds_adopt (d.fill_upholds (d.source scheme))
      (d.blank_blank (d.source scheme) generate) hadd
  unfold declare
  split
  · exact fun s => ⟨.refl s, faults_of_error rfl rfl⟩
  · exact rest

end FileDescriptor

namespace Schema

/-- What declarations make of a schema: its registry has further declarations, each under its own
name, and further files are there, which are blank. -/
structure Grows (s t : Schema) : Prop where
  registry : ∃ news, t.registry = s.registry.extend news
  files : ∃ fs, (∀ f ∈ fs, f.Blank) ∧ t.files = s.files ++ fs

theorem Grows.refl (s : Schema) : s.Grows s :=
  ⟨⟨[], (Registry.extend_nil _).symm⟩, [], List.forall_mem_nil _, (List.append_nil _).symm⟩

theorem Grows.trans (s t u : Schema) (h : s.Grows t) (h' : t.Grows u) : s.Grows u := by
  obtain ⟨⟨xs, hx⟩, fs, hfs, hf⟩ := h
  obtain ⟨⟨ys, hy⟩, gs, hgs, hg⟩ := h'
  constructor
  · exact ⟨xs ++ ys, by rw [hy, hx, Registry.extend_append]⟩
  · exact ⟨fs ++ gs, List.forall_mem_append.mpr ⟨hfs, hgs⟩, by rw [hg, hf, List.append_assoc]⟩

/-- A declaration only adds to a schema, however far it goes, and it fails only with a fault of the
descriptor. -/
theorem declare_grows (scheme : ImportScheme) (generate : Bool) (d : FileDescriptor) (s : Schema) :
    s.Grows (leaves (declare scheme generate d) s) ∧ Faults (declare scheme generate d) s := by
  let I (gs : List File) : Prop := ∃ fs, (∀ f ∈ fs, f.Blank) ∧ gs = s.files ++ fs
  have hadd (f : File) (gs : List File) (hf : f.Blank) (hgs : I gs) : I (gs ++ [f]) := by
    obtain ⟨fs, hfs, rfl⟩ := hgs
    exact ⟨fs ++ [f], forall_mem_snoc hfs hf, List.append_assoc _ _ _⟩
  obtain ⟨grown, faults⟩ := d.declare_upholds scheme generate hadd (s.files, s.registry)
  have start : I s.files := ⟨[], List.forall_mem_nil _, (List.append_nil _).symm⟩
  cases hd : d.declare scheme generate (s.files, s.registry) with
  | ok u t =>
    have done : declare scheme generate d s = .ok () ⟨t.2, t.1⟩ := by simp only [declare, hd]
    rw [leaves, hd] at grown
    rw [leaves, done]
    exact ⟨⟨grown.registry, grown.node start⟩, faults_of_ok done⟩
  | error e t =>
    have failed : declare scheme generate d s = .error e ⟨t.2, t.1⟩ := by simp only [declare, hd]
    rw [leaves, hd] at grown
    rw [leaves, failed]
    exact ⟨⟨grown.registry, grown.node start⟩, faults_of_error failed (faults _ _ hd)⟩

/-- A declaration is registered under a further key, or nothing changes. -/
theorem leaves_registerAs (kind : DeclKind) (name key : String) (s : Schema) :
    leaves (registerAs kind name key) s = s ∨
    ∃ t, s.registry.lookup kind name = some t ∧ leaves (registerAs kind name key) s =
      { s with registry := ⟨s.registry.journal ++ [⟨kind, key, t⟩]⟩ } := by
  unfold leaves registerAs
  cases ht : s.registry.lookup kind name with
  | none => exact .inl rfl
  | some t =>
    cases h : s.registry.register kind key t with
    | error e => exact .inl (by simp only [h, final])
    | ok r => exact .inr ⟨t, rfl, by simp only [h, Registry.eq_of_register h, final]⟩

/-- A declaration is registered once more under its own name, or nothing changes. -/
theorem leaves_reregister (kind : DeclKind) (name : String) (s : Schema) :
    leaves (reregister kind name) s = s ∨
    ∃ t, leaves (reregister kind name) s = { s with registry := s.registry.extend [t] } := by
  unfold leaves reregister
  cases s.registry.lookup kind name with
  | none => exact .inl rfl
  | some t =>
    cases h : s.registry.declare t with
    | error e => exact .inl (by simp only [h, final])
    | ok r => exact .inr ⟨t, by simp only [h, Registry.eq_of_register h, final]; rfl⟩

end Schema

end Protolink
