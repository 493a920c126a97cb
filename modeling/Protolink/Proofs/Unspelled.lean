import Protolink.Proofs.Faults
import Protolink.Proofs.Mirroring

/-!
# Declaring without reading references

Declaring a file does not look at what the file refers to.  Erasing the references from a descriptor
and declaring it come to the same as declaring it and erasing the references from its node; this is
so however far the declaration goes, and with the same error.  `Draft.Mirrors q t t'` says this of a
draft: `t'` does to what is seen of a node through `q` what `t` does to the node.  The rules for the
ways in which drafts are put together are those of `Mirrored` with the registry seen as it is, and
there is one lemma for each kind of declaration.

So the errors that declaring may end with are reported whatever the references are, and before any
of them is followed.
-/

namespace Protolink

variable {σ τ α β γ : Type}

namespace Draft

def Mirrors (q : σ → τ) (t : Draft σ α) (t' : Draft τ α) : Prop :=
  ∀ s, seen (Prod.map q id) (t s) = t' (Prod.map q id s)

section Rules

variable {q : σ → τ}

theorem mirrors_pure (a : α) : Mirrors q (pure a) (pure a) := mirrored_pure a

theorem Mirrors.seq {t : Draft σ α} {t' : Draft τ α} {u : α → Draft σ β} {u' : α → Draft τ β}
    (ht : Mirrors q t t') (hu : ∀ a, Mirrors q (u a) (u' a)) :
    Mirrors q (t >>= u) (t' >>= u') :=
  Mirrored.seq ht hu

/-- A node that is seen as it is. -/
theorem mirrors_id (t : Draft σ α) : Mirrors id t t := by
  intro s
  change seen id (t s) = t s
  cases t s <;> rfl

/-- What is required is made from another requirement, with the same error. -/
theorem mirrors_require {x : Except Error α} {g : α → γ} {k : α → Draft σ β} {k' : γ → Draft τ β}
    (hk : ∀ a, Mirrors q (k a) (k' (g a))) :
    Mirrors q (require x >>= k) (require (x.map g) >>= k') :=
  mirrored_require rfl hk

theorem mirrors_require_self {x : Except Error α} {k : α → Draft σ β} {k' : α → Draft τ β}
    (hk : ∀ a, Mirrors q (k a) (k' a)) : Mirrors q (require x >>= k) (require x >>= k') :=
  mirrored_require_self hk

theorem mirrors_ask {p : σ → α} {p' : τ → γ} {k : α → Draft σ β} {k' : γ → Draft τ β}
    (hk : ∀ n, Mirrors q (k (p n)) (k' (p' (q n)))) : Mirrors q (ask p >>= k) (ask p' >>= k') :=
  mirrored_ask hk

theorem mirrors_edit {f : σ → σ} {f' : τ → τ} (h : ∀ n, q (f n) = f' (q n)) :
    Mirrors q (edit f) (edit f') :=
  mirrored_edit h

theorem mirrors_declare (s : Symbol) : Mirrors q (declare s) (declare s) :=
  mirrored_declare fun r => congrFun Except.map_id (r.declare s)

/-- A part of the node is seen for itself. -/
theorem mirrors_adopt {p : β → γ} {add : β → σ → σ} {add' : γ → τ → τ} {child : β} {child' : γ}
    {draft : Draft β Unit} {draft' : Draft γ Unit} (h : Mirrors p draft draft')
    (hchild : p child = child') (hadd : ∀ c n, q (add c n) = add' (p c) (q n)) :
    Mirrors q (adopt add child draft) (adopt add' child' draft') :=
  mirrored_adopt h hchild hadd

theorem mirrors_forEach {step : Nat → α → Draft σ Unit} {step' : Nat → γ → Draft τ Unit}
    {g : α → γ} (h : ∀ i a, Mirrors q (step i a) (step' i (g a))) (i : Nat) (as : List α) :
    Mirrors q (forEach step i as) (forEach step' i (as.map g)) :=
  mirrored_forEach h i as

theorem mirrors_forEach_self {step : Nat → α → Draft σ Unit} {step' : Nat → α → Draft τ Unit}
    (h : ∀ i a, Mirrors q (step i a) (step' i a)) (i : Nat) (as : List α) :
    Mirrors q (forEach step i as) (forEach step' i as) :=
  mirrored_forEach_self h i as

end Rules

end Draft

/-! ## Without references -/

def FieldDescriptor.unspelled (d : FieldDescriptor) : FieldDescriptor :=
  { d with typeName := "", extendee := none }

def MessageDecl.unspelled (d : MessageDecl) : MessageDecl :=
  { d with
    fields := d.fields.map FieldDescriptor.unspelled
    extensions := d.extensions.map FieldDescriptor.unspelled }

namespace MessageDescriptor

mutual

def unspelled : MessageDescriptor → MessageDescriptor
  | ⟨d, nested⟩ => ⟨d.unspelled, unspelledOf nested⟩

def unspelledOf : List MessageDescriptor → List MessageDescriptor
  | [] => []
  | m :: ms => m.unspelled :: unspelledOf ms

end

@[simp] theorem toMessageDecl_unspelled (m : MessageDescriptor) :
    m.unspelled.toMessageDecl = m.toMessageDecl.unspelled := by
  cases m
  rw [unspelled]

end MessageDescriptor

def MethodDescriptor.unspelled (d : MethodDescriptor) : MethodDescriptor :=
  { d with input := "", output := "" }

def ServiceDescriptor.unspelled (d : ServiceDescriptor) : ServiceDescriptor :=
  { d with methods := d.methods.map MethodDescriptor.unspelled }

/-- The file without what it says about other declarations: its imports, and the names of types, of
extended messages and of what methods take and give. -/
def FileDescriptor.unspelled (d : FileDescriptor) : FileDescriptor :=
  { d with
    dependencies := []
    messages := d.messages.map MessageDescriptor.unspelled
    services := d.services.map ServiceDescriptor.unspelled
    extensions := d.extensions.map FieldDescriptor.unspelled }

def Field.unspelled (f : Field) : Field := { f with typeName := "", extendeeName := none }

def MessageBody.unspelled (b : MessageBody) : MessageBody :=
  { b with
    fields := b.fields.map Field.unspelled
    extensions := b.extensions.map Field.unspelled }

def Message.unspelled (m : Message) : Message := m.map MessageBody.unspelled

theorem Message.unspelled_eq (m : Message) :
    m.unspelled = ⟨m.toMessageBody.unspelled, m.nested.map unspelled⟩ := by
  obtain ⟨body, nested⟩ := m
  rw [unspelled, map, mapOf_eq_map]
  rfl

def Method.unspelled (m : Method) : Method := { m with inputName := "", outputName := "" }

def Service.unspelled (s : Service) : Service :=
  { s with methods := s.methods.map Method.unspelled }

/-- The file without what is kept of the spellings in its descriptor. -/
def File.unspelled (f : File) : File :=
  { f with
    dependencyNames := []
    ownMessages := f.ownMessages.map Message.unspelled
    ownServices := f.ownServices.map Service.unspelled
    extensions := f.extensions.map Field.unspelled }

def Schema.unspelled (s : Schema) : Schema := { s with files := s.files.map File.unspelled }

/-! ## Declaring what is inside a file -/

open Draft (Mirrors)

namespace Source

variable (src : Source)

theorem map_field_unspelled (parent : Option String) (oneof : Option Nat) (path : List Int)
    (d : FieldDescriptor) : (src.field parent oneof path d).map Field.unspelled =
      src.field parent oneof path d.unspelled := by
  unfold field FieldDescriptor.unspelled requireName
  by_cases hname : d.name = ""
  · simp only [hname, if_true]
    rfl
  by_cases hnumber : d.number ≤ 0
  · simp only [hname, hnumber, if_true, if_false]
    rfl
  cases hkind : d.kind with
  | none =>
    simp only [hname, hnumber, if_false]
    rfl
  | some kind =>
    cases hlabel : Cardinality.ofLabel? (d.label.getD 0) <;>
    · simp only [hname, hnumber, hlabel, if_false]
      rfl

variable {q : σ → τ}

theorem declareExtension_mirrors (parent : Option String) (path : List Int) (d : FieldDescriptor)
    {add : Field → σ → σ} {add' : Field → τ → τ}
    (hadd : ∀ x n, q (add x n) = add' x.unspelled (q n)) :
    Mirrors q (src.declareExtension parent path d add)
      (src.declareExtension parent path d.unspelled add') := by
  unfold declareExtension
  rw [← map_field_unspelled]
  refine Draft.mirrors_require fun x => ?_
  exact (Draft.mirrors_declare x.symbol).seq fun _ => Draft.mirrors_edit (hadd x)

theorem declareEnum_mirrors (parent : Option String) (path : List Int) (d : EnumDescriptor)
    {add : EnumType → σ → σ} {add' : EnumType → τ → τ} (hadd : ∀ e n, q (add e n) = add' e (q n)) :
    Mirrors q (src.declareEnum parent path d add) (src.declareEnum parent path d add') := by
  refine Draft.mirrors_require_self fun name => (Draft.mirrors_declare _).seq fun _ => ?_
  exact Draft.mirrors_adopt (Draft.mirrors_id _) rfl hadd

theorem fillOneof_mirrors (path : List Int) (i : Nat) (d : OneofDescriptor) :
    Mirrors Message.unspelled (src.fillOneof path i d) (src.fillOneof path i d) := by
  unfold fillOneof
  refine Draft.mirrors_ask fun m => ?_
  rw [Message.unspelled_eq]
  refine Draft.mirrors_require_self fun name => Draft.mirrors_edit fun n => ?_
  rw [Message.unspelled_eq, Message.unspelled_eq]
  rfl

theorem addField_unspelled (b : MessageBody) (f : Field) :
    (b.addField f).unspelled = b.unspelled.addField f.unspelled := by
  simp only [MessageBody.addField, MessageBody.unspelled, List.map_append, List.map_singleton,
    List.length_map]
  rfl

theorem fillField_mirrors (path : List Int) (i : Nat) (d : FieldDescriptor) :
    Mirrors Message.unspelled (src.fillField path i d) (src.fillField path i d.unspelled) := by
  unfold fillField
  refine Draft.mirrors_ask fun m => ?_
  rw [Message.unspelled_eq]
  refine Draft.mirrors_require_self fun oneof => ?_
  change Mirrors _ (Draft.require (src.field (some m.fullName) oneof _ d) >>= _)
    (Draft.require (src.field (some m.fullName) oneof _ d.unspelled) >>= _)
  rw [← map_field_unspelled]
  refine Draft.mirrors_require fun f => Draft.mirrors_edit fun n => ?_
  rw [Message.unspelled_eq, Message.unspelled_eq, addField_unspelled]

theorem declareMessage_mirrors (parent : Option String) (path : List Int) (d : MessageDecl)
    {add : Message → σ → σ} {add' : Message → τ → τ} {fill fill' : Draft Message Unit}
    (hfill : Mirrors Message.unspelled fill fill')
    (hadd : ∀ m n, q (add m n) = add' m.unspelled (q n)) :
    Mirrors q (src.declareMessage parent path d add fill)
      (src.declareMessage parent path d.unspelled add' fill') := by
  refine Draft.mirrors_require_self fun name => (Draft.mirrors_declare _).seq fun _ => ?_
  exact Draft.mirrors_adopt hfill (Message.unspelled_eq _) hadd

mutual

theorem fillMessage_mirrors (path : List Int) : ∀ d : MessageDescriptor,
    Mirrors Message.unspelled (src.fillMessage path d) (src.fillMessage path d.unspelled)
  | ⟨d, nested⟩ => by
    rw [MessageDescriptor.unspelled, fillMessage, fillMessage]
    refine (Draft.mirrors_forEach_self (src.fillOneof_mirrors path) 0 d.oneofs).seq fun _ => ?_
    refine (Draft.mirrors_forEach (src.fillField_mirrors path) 0 d.fields).seq fun _ => ?_
    refine (fillNested_mirrors path 0 nested).seq fun _ => Draft.mirrors_ask fun m => ?_
    rw [Message.unspelled_eq]
    refine (Draft.mirrors_forEach_self (fun i e => src.declareEnum_mirrors _ _ e ?_) 0
      d.enums).seq fun _ => ?_
    · intro e n
      rw [Message.unspelled_eq, Message.unspelled_eq]
      rfl
    refine (Draft.mirrors_forEach (fun i x => src.declareExtension_mirrors _ _ x ?_) 0
      d.extensions).seq fun _ => ?_
    · intro x n
      rw [Message.unspelled_eq, Message.unspelled_eq]
      simp only [MessageBody.unspelled, List.map_append, List.map_singleton]
    · refine Draft.mirrors_edit fun n => ?_
      rw [Message.unspelled_eq, Message.unspelled_eq]
      rfl

theorem fillNested_mirrors (path : List Int) (i : Nat) : ∀ ds : List MessageDescriptor,
    Mirrors Message.unspelled (src.fillNested path i ds)
      (src.fillNested path i (MessageDescriptor.unspelledOf ds))
  | [] => by
    rw [MessageDescriptor.unspelledOf, fillNested]
    exact Draft.mirrors_pure ()
  | d :: ds => by
    rw [MessageDescriptor.unspelledOf, fillNested, fillNested]
    refine Draft.mirrors_ask fun m => ?_
    rw [Message.unspelled_eq m, MessageDescriptor.toMessageDecl_unspelled]
    refine (src.declareMessage_mirrors _ _ _ (fillMessage_mirrors _ d) ?_).seq fun _ =>
      fillNested_mirrors path (i + 1) ds
    intro n m
    rw [Message.unspelled_eq, Message.unspelled_eq m]
    simp only [List.map_append, List.map_singleton]

end

theorem fillMethod_mirrors (path : List Int) (i : Nat) (d : MethodDescriptor) :
    Mirrors Service.unspelled (src.fillMethod path i d) (src.fillMethod path i d.unspelled) := by
  refine Draft.mirrors_ask fun s => Draft.mirrors_require_self fun name => ?_
  refine Draft.mirrors_edit fun n => ?_
  simp only [Service.unspelled, List.map_append, List.map_singleton]
  rfl

theorem declareService_mirrors (path : List Int) (d : ServiceDescriptor) :
    Mirrors File.unspelled (src.declareService path d) (src.declareService path d.unspelled) := by
  have complete : Mirrors Service.unspelled (Draft.edit fun s => { s with isComplete := true })
      (Draft.edit fun s => { s with isComplete := true }) := Draft.mirrors_edit fun _ => rfl
  have methods := (Draft.mirrors_forEach (src.fillMethod_mirrors path) 0 d.methods).seq fun _ =>
    complete
  refine Draft.mirrors_require_self fun name => (Draft.mirrors_declare _).seq fun _ => ?_
  refine Draft.mirrors_adopt methods rfl fun s f => ?_
  simp only [File.unspelled, List.map_append, List.map_singleton]

end Source

/-! ## Declaring files -/

namespace FileDescriptor

variable (d : FileDescriptor)

theorem fill_mirrors (src : Source) :
    Mirrors File.unspelled (d.fill src) (d.unspelled.fill src) := by
  refine (Draft.mirrors_forEach (fun i m => ?_) 0 d.messages).seq fun _ => ?_
  · rw [MessageDescriptor.toMessageDecl_unspelled]
    refine src.declareMessage_mirrors none _ _ (src.fillMessage_mirrors _ m) fun n f => ?_
    simp only [File.unspelled, List.map_append, List.map_singleton]
  refine (Draft.mirrors_forEach_self (fun i e => src.declareEnum_mirrors none _ e ?_) 0
    d.enums).seq fun _ => ?_
  · exact fun e f => rfl
  refine (Draft.mirrors_forEach (g := ServiceDescriptor.unspelled) (fun i s => ?_) 0
    d.services).seq fun _ => ?_
  · exact src.declareService_mirrors [Tag.fileServices, (i : Int)] s
  refine (Draft.mirrors_forEach (fun i x => src.declareExtension_mirrors none _ x ?_) 0
    d.extensions).seq fun _ => ?_
  · intro x f
    simp only [File.unspelled, List.map_append, List.map_singleton]
  · exact Draft.mirrors_edit fun f => rfl

theorem declare_mirrors (scheme : ImportScheme) (generate : Bool) :
    Mirrors (List.map File.unspelled) (d.declare scheme generate)
      (d.unspelled.declare scheme generate) := by
  unfold declare
  by_cases name : d.name = ""
  · rw [if_pos name, if_pos (show d.unspelled.name = "" from name)]
    exact fun _ => rfl
  · rw [if_neg name, if_neg (show ¬d.unspelled.name = "" from name)]
    refine (Draft.mirrors_declare _).seq fun _ => ?_
    refine Draft.mirrors_adopt (d.fill_mirrors (d.source scheme)) rfl fun f fs => ?_
    rw [List.map_append, List.map_singleton]

end FileDescriptor

/-! ## Imports -/

/-- The file was not found to import anything. -/
abbrev File.ImportsNothing (f : File) : Prop := f.dependencies = []

theorem Source.declareService_imports (src : Source) (path : List Int) (d : ServiceDescriptor) :
    Draft.Upholds File.ImportsNothing (src.declareService path d) := by
  have methods := (Draft.upholds_forEach (src.fillMethod_upholds path) 0 d.methods).seq fun _ =>
    Draft.upholds_edit (f := fun s : Service => { s with isComplete := true }) fun _ hs => hs
  refine Draft.upholds_require (fun _ => requireName_faults) fun name _ => ?_
  refine (Draft.upholds_declare _).seq fun _ => ?_
  exact Draft.upholds_adopt methods (List.forall_mem_nil _) fun _ _ _ hf => hf

namespace FileDescriptor

variable (d : FileDescriptor)

theorem fill_imports (src : Source) : Draft.Upholds File.ImportsNothing (d.fill src) := by
  refine (Draft.upholds_forEach (fun i m => src.declareMessage_upholds none _ _
    (src.fillMessage_upholds _ m) ?_) 0 d.messages).seq fun _ => ?_
  · exact fun _ _ _ hf => hf
  refine (Draft.upholds_forEach (fun i e => src.declareEnum_upholds none _ e ?_) 0 d.enums).seq
    fun _ => ?_
  · exact fun _ _ hf => hf
  refine (Draft.upholds_forEach (fun i s => src.declareService_imports _ s) 0 d.services).seq
    fun _ => ?_
  refine (Draft.upholds_forEach (fun i x => src.declareExtension_upholds none _ x ?_) 0
    d.extensions).seq fun _ => ?_
  · exact fun _ _ _ hf => hf
  exact Draft.upholds_edit fun _ hf => hf

theorem declare_imports (scheme : ImportScheme) (generate : Bool) :
    Draft.Upholds (fun fs : List File => ∀ f ∈ fs, f.ImportsNothing)
      (d.declare scheme generate) := by
  have blank : (d.blank (d.source scheme) generate).ImportsNothing := rfl
  have add (f : File) (fs : List File) (hf : f.ImportsNothing)
      (hfs : ∀ g ∈ fs, g.ImportsNothing) : ∀ g ∈ fs ++ [f], g.ImportsNothing :=
    forall_mem_snoc hfs hf
  have rest := (Draft.upholds_declare (d.blank (d.source scheme) generate).symbol).seq fun _ =>
    Draft.upholds_adopt (d.fill_imports (d.source scheme)) blank add
  unfold declare
  split
  · exact fun s => ⟨.refl s, faults_of_error rfl rfl⟩
  · exact rest

end FileDescriptor

/-! ## Declaring several files -/

namespace Schema

variable (scheme : ImportScheme)

theorem seen_declare (generate : Bool) (d : FileDescriptor) (s : Schema) :
    seen unspelled (declare scheme generate d s) =
      declare scheme generate d.unspelled s.unspelled := by
  have mirrored : seen (Prod.map (List.map File.unspelled) id)
      (d.declare scheme generate (s.files, s.registry)) =
    d.unspelled.declare scheme generate (s.files.map File.unspelled, s.registry) :=
    d.declare_mirrors scheme generate (s.files, s.registry)
  unfold declare
  simp only [unspelled, ← mirrored]
  cases d.declare scheme generate (s.files, s.registry) <;> rfl

/-- Declares files in turn, each with whether output is wanted for it. -/
def declareEach (files : List (Bool × FileDescriptor)) : EStateM Error Schema Unit :=
  files.forM fun d => declare scheme d.1 d.2

theorem seen_declareEach (files : List (Bool × FileDescriptor)) (s : Schema) :
    seen unspelled (declareEach scheme files s) =
      declareEach scheme (files.map (Prod.map id FileDescriptor.unspelled)) s.unspelled := by
  induction files generalizing s with
  | nil => rfl
  | cons d files ih => exact seen_seq (seen_declare scheme d.1 d.2 s) fun _ => ih

/-- Files that say the same but for their references are declared alike: the same error is met, if
there is one, and what is declared until then is the same but for the spellings that it keeps. -/
theorem seen_declareEach_congr {files files' : List (Bool × FileDescriptor)}
    (alike : files.map (Prod.map id FileDescriptor.unspelled) =
      files'.map (Prod.map id FileDescriptor.unspelled)) (s : Schema) :
    seen unspelled (declareEach scheme files s) = seen unspelled (declareEach scheme files' s) := by
  rw [seen_declareEach, seen_declareEach, alike]

/-! ## Nothing is followed before everything is declared -/

/-- The files of a request, each with whether output is wanted for it. -/
def flagged (wanted : List String) (files : List FileDescriptor) : List (Bool × FileDescriptor) :=
  files.map fun d => (wanted.contains d.name, d)

theorem flagged_unspelled (wanted : List String) (files : List FileDescriptor) :
    (flagged wanted files).map (Prod.map id FileDescriptor.unspelled) =
      flagged wanted (files.map FileDescriptor.unspelled) := by
  rw [flagged, flagged, List.map_map, List.map_map]
  rfl

theorem declareEach_flagged (wanted : List String) (files : List FileDescriptor) :
    declareEach scheme (flagged wanted files) =
      files.forM fun d => declare scheme (wanted.contains d.name) d := by
  induction files with
  | nil => rfl
  | cons d files ih => exact congrArg (declare scheme _ d >>= fun _ => ·) ih

/-- An error in the declarations of a request is the error that it ends with. -/
theorem assemble_eq_error {files : List FileDescriptor} {wanted : List String} {e : Error}
    {s : Schema} (h : declareEach scheme (flagged wanted files) {} = .error e s) :
    assemble scheme files wanted {} = .error e s := by
  rw [declareEach_flagged] at h
  change EStateM.bind _ _ _ = _
  rw [EStateM.bind, h]

/-- A request is declared to its end only if nothing in it is missing and no key is taken twice. -/
theorem sound_of_declareEach_eq_ok {files : List FileDescriptor} {wanted : List String} {s : Schema}
    (h : declareEach scheme (flagged wanted files) {} = .ok () s) :
    (∀ d ∈ files, d.Sound) ∧ (files.flatMap FileDescriptor.keys).Nodup := by
  rw [declareEach_flagged] at h
  obtain ⟨⟨sound, admits⟩, -⟩ := (declareAll_yields scheme wanted files {} s).mp h
  exact ⟨sound, (admits_symbols_iff scheme).mp admits⟩

/-- No file of the schema was found to import anything. -/
def ImportsNothing (s : Schema) : Prop := ∀ f ∈ s.files, f.ImportsNothing

theorem declare_imports (generate : Bool) (d : FileDescriptor) :
    Moves (fun s t => s.ImportsNothing → t.ImportsNothing) (declare scheme generate d) := by
  intro s hs
  obtain ⟨kept, -⟩ := d.declare_imports scheme generate (s.files, s.registry)
  have node := kept.node hs
  unfold leaves at node
  unfold leaves declare
  cases hd : d.declare scheme generate (s.files, s.registry) with
  | ok u t =>
    rw [hd] at node
    exact node
  | error e t =>
    rw [hd] at node
    exact node

/-- However far the files of a request are declared, nothing that they refer to is followed. -/
theorem declareEach_follows_nothing (files : List (Bool × FileDescriptor)) :
    ∀ f ∈ (leaves (declareEach scheme files) {}).files, f.Blank ∧ f.ImportsNothing := by
  have grows (d : Bool × FileDescriptor) : Moves Grows (declare scheme d.1 d.2) :=
    fun s => (declare_grows scheme d.1 d.2 s).1
  have grown : Moves Grows (declareEach scheme files) :=
    .forM Grows.refl Grows.trans grows files
  obtain ⟨fs, blank, hfiles⟩ := (grown {}).files
  have kept (d : Bool × FileDescriptor) := declare_imports scheme d.1 d.2
  have imports : Moves (fun s t => s.ImportsNothing → t.ImportsNothing)
      (declareEach scheme files) :=
    .forM (fun _ h => h) (fun _ _ _ h h' hs => h' (h hs)) kept files
  rw [List.nil_append] at hfiles
  intro f hf
  exact ⟨blank f (hfiles ▸ hf), imports {} (List.forall_mem_nil _) f hf⟩

/-! ## The theorem -/

/-- Declaring ignores references.  Lists of files that differ only in what they say about other
declarations end with the same error or with none, and leave the same registry and the same nodes
but for the spellings that these keep.  So a request in which something is missing or a key is taken
twice is refused with the same error whatever its references are, and with nothing followed. -/
theorem declaring_ignores_references :
    (∀ files files' : List (Bool × FileDescriptor),
      files.map (Prod.map id FileDescriptor.unspelled) =
        files'.map (Prod.map id FileDescriptor.unspelled) →
      seen unspelled (declareEach scheme files {}) =
        seen unspelled (declareEach scheme files' {})) ∧
    ∀ (files : List FileDescriptor) (wanted : List String),
      ¬((∀ d ∈ files, d.Sound) ∧ (files.flatMap FileDescriptor.keys).Nodup) →
      ∃ e s, declareEach scheme (flagged wanted files) {} = .error e s ∧
        ∀ files' : List FileDescriptor,
          files'.map FileDescriptor.unspelled = files.map FileDescriptor.unspelled →
          ofFiles scheme files' wanted = .error e ∧
          ∃ s', assemble scheme files' wanted {} = .error e s' ∧ s'.unspelled = s.unspelled ∧
            ∀ f ∈ s'.files, f.Blank ∧ f.ImportsNothing := by
  refine ⟨fun _ _ alike => seen_declareEach_congr scheme alike {}, fun files wanted defect => ?_⟩
  cases hs : declareEach scheme (flagged wanted files) {} with
  | ok _ s => exact absurd (sound_of_declareEach_eq_ok scheme hs) defect
  | error e s =>
    refine ⟨e, s, rfl, fun files' alike => ?_⟩
    have flags : (flagged wanted files').map (Prod.map id FileDescriptor.unspelled) =
        (flagged wanted files).map (Prod.map id FileDescriptor.unspelled) := by
      rw [flagged_unspelled, flagged_unspelled, alike]
    have same := seen_declareEach_congr scheme flags {}
    rw [hs] at same
    obtain ⟨s', hs', unspelled⟩ := seen_eq_error_iff.mp same
    have failed := assemble_eq_error scheme hs'
    have untouched := declareEach_follows_nothing scheme (flagged wanted files')
    rw [leaves, hs'] at untouched
    refine ⟨?_, s', failed, unspelled, untouched⟩
    rw [ofFiles, failed]

/-- A file that declares a message twice and refers to nothing that is there. -/
def twiceFile : FileDescriptor :=
  { name := "twice.proto", package := "twice", dependencies := ["missing.proto"]
    messages := [
      { name := "Message"
        fields := [
          { name := "field", number := 1, label := some 1, kind := some .message
            typeName := ".nowhere.Type" }] },
      { name := "Message" }]
    extensions := [
      { name := "note", number := 7, label := some 1, kind := some .string
        extendee := some "Nothing" }] }

theorem declaring_ignores_references_twiceFile :
    seen unspelled (declareEach .bundled [(true, twiceFile)] {}) =
      seen unspelled (declareEach .bundled [(true, twiceFile.unspelled)] {}) ∧
    ofFiles .bundled [twiceFile] ["twice.proto"] = .error (.duplicate .message "twice.Message") ∧
    ofFiles .bundled [twiceFile.unspelled] ["twice.proto"] =
      .error (.duplicate .message "twice.Message") := by
  obtain ⟨alike, refused⟩ := declaring_ignores_references .bundled
  have taken : ¬((∀ d ∈ [twiceFile], d.Sound) ∧
      ([twiceFile].flatMap FileDescriptor.keys).Nodup) :=
    fun h => absurd h.2 (by decide +kernel)
  obtain ⟨e, s, hs, same⟩ := refused [twiceFile] ["twice.proto"] taken
  have word : ofFiles .bundled [twiceFile] ["twice.proto"] =
      .error (.duplicate .message "twice.Message") := by rfl
  obtain ⟨first, -⟩ := same [twiceFile] rfl
  obtain rfl := Except.error.inj (first.symm.trans word)
  exact ⟨alike _ _ rfl, first, (same [twiceFile.unspelled] rfl).1⟩

end Schema

end Protolink
