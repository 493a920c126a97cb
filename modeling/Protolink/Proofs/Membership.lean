import Mathlib.Data.List.Induction
import Protolink.Proofs.Addresses
import Protolink.Proofs.Contracts
import Protolink.Proofs.Sessions

/-!
# Oneofs and their fields

A field knows the place of its oneof, and a oneof knows the places of its fields.  The two are
written one after the other while a message is read, and reading may stop between any two
declarations.  `MessageBody.Groups` says that they agree in a message of which some oneofs and
some fields are read, and the contracts of the drafts carry it through whatever is read next, to
the end or to the fault that stops the file.  Links do not touch oneofs, so that the two agree in
every state of a session.

Main statement: `Schema.oneofs_agree`.
-/

namespace Protolink

/-! ## Both sides of a membership -/

namespace MessageBody

/-- The places of the fields that are in the oneof at place `k`. -/
def placesOf (b : MessageBody) (k : Nat) : List Nat :=
  (b.fields.zipIdx.filter fun f => f.1.oneof = some k).map Prod.snd

/-- A message of which the oneofs `os` and the fields `fs` are read.  They are in it in this order;
a field is in the oneof that its descriptor says, which is there, and in none if it says none;
oneofs have their fields as members; and extensions are in no oneof. -/
structure Groups (os : List OneofDescriptor) (fs : List FieldDescriptor) (b : MessageBody) :
    Prop where
  oneofs : List.Forall₂ (fun d o => o.name = d.name ∧ o.fullName = Name.join b.fullName o.name)
    os b.oneofs
  fields : List.Forall₂ (fun (d : FieldDescriptor) (f : Field) => f.name = d.name ∧
    f.parent = some b.fullName ∧ f.oneof = d.oneofIndex.map Int.toNat ∧
    ∀ i ∈ d.oneofIndex, 0 ≤ i ∧ i < b.oneofs.length) fs b.fields
  members : ∀ k o, b.oneofs[k]? = some o → o.members = b.placesOf k
  extensions : ∀ x ∈ b.extensions, x.oneof = none

variable {os : List OneofDescriptor} {fs : List FieldDescriptor} {b : MessageBody}

theorem Groups.of_empty (oneofs : b.oneofs = []) (fields : b.fields = [])
    (extensions : b.extensions = []) : b.Groups [] [] := by
  constructor
  · rw [oneofs]
    exact .nil
  · rw [fields]
    exact .nil
  · intro k o ho
    rw [oneofs] at ho
    exact absurd ho nofun
  · rw [extensions]
    exact List.forall_mem_nil _

/-- Enums, flags and nested messages do not matter. -/
theorem Groups.congr {c : MessageBody} (h : b.Groups os fs) (fullName : c.fullName = b.fullName)
    (oneofs : c.oneofs = b.oneofs) (fields : c.fields = b.fields)
    (extensions : ∀ x ∈ c.extensions, x.oneof = none) : c.Groups os fs := by
  obtain ⟨ho, hf, hm, -⟩ := h
  refine ⟨?_, ?_, ?_, extensions⟩
  · rwa [oneofs, fullName]
  · rwa [oneofs, fields, fullName]
  · rwa [oneofs, show c.placesOf = b.placesOf by unfold placesOf; rw [fields]]

/-- A oneof that is added has no fields yet. -/
theorem Groups.addOneof (h : b.Groups os []) {d : OneofDescriptor} {o : Oneof}
    (name : o.name = d.name) (fullName : o.fullName = Name.join b.fullName o.name)
    (members : o.members = []) :
    { b with oneofs := b.oneofs ++ [o] }.Groups (os ++ [d]) [] := by
  have nothing : b.fields = [] := List.forall₂_nil_left_iff.mp h.fields
  constructor
  · exact List.rel_append h.oneofs (.cons ⟨name, fullName⟩ .nil)
  · rw [nothing]
    exact .nil
  · have places (k : Nat) : { b with oneofs := b.oneofs ++ [o] }.placesOf k = [] := by
      rw [placesOf, nothing]
      rfl
    have empty : ∀ u ∈ b.oneofs ++ [o], u.members = [] := by
      refine forall_mem_snoc (fun u hu => ?_) members
      obtain ⟨k, hk⟩ := List.mem_iff_getElem?.mp hu
      rw [h.members k u hk, placesOf, nothing]
      rfl
    intro k u hu
    rw [places, empty u (List.mem_of_getElem? hu)]
  · exact h.extensions

theorem placesOf_addField (b : MessageBody) (f : Field) (k : Nat) : (b.addField f).placesOf k =
    b.placesOf k ++ if f.oneof = some k then [b.fields.length] else [] := by
  unfold placesOf addField
  rw [List.zipIdx_append, List.filter_append, List.map_append]
  congr 1
  by_cases h : f.oneof = some k <;> simp [h]

/-- A oneof of a message is what it was before a field was added, with this field if it is in
it. -/
theorem getElem?_oneofs_addField (b : MessageBody) (f : Field) (k : Nat) :
    (b.addField f).oneofs[k]? = b.oneofs[k]?.map fun o =>
      { o with members := o.members ++ if f.oneof = some k then [b.fields.length] else [] } := by
  unfold addField
  cases hf : f.oneof with
  | none => simp
  | some i =>
    simp only [List.getElem?_modify, Option.some.injEq]
    cases b.oneofs[k]? with
    | none => rfl
    | some o => by_cases h : i = k <;> simp [h]

/-- A field is added on both sides. -/
theorem Groups.addField (h : b.Groups os fs) {d : FieldDescriptor} {f : Field}
    (name : f.name = d.name) (parent : f.parent = some b.fullName)
    (oneof : f.oneof = d.oneofIndex.map Int.toNat)
    (range : ∀ i ∈ d.oneofIndex, 0 ≤ i ∧ i < b.oneofs.length) :
    (b.addField f).Groups os (fs ++ [d]) := by
  constructor
  · have names := b.map_oneofs_addField (g := fun o => (o.name, o.fullName)) f fun _ _ => rfl
    have before := h.oneofs
    rw [← List.forall₂_map_right_iff (f := fun o : Oneof => (o.name, o.fullName))
      (R := fun (d : OneofDescriptor) p => p.1 = d.name ∧ p.2 = Name.join b.fullName p.1),
      ← names, List.forall₂_map_right_iff] at before
    exact before
  · rw [length_oneofs_addField]
    exact List.rel_append h.fields (.cons ⟨name, parent, oneof, range⟩ .nil)
  · intro k o ho
    rw [getElem?_oneofs_addField, Option.map_eq_some_iff] at ho
    obtain ⟨u, hu, rfl⟩ := ho
    rw [placesOf_addField, h.members k u hu]
  · exact h.extensions

/-! ## What the members of a oneof are -/

/-- The oneof at place `k` has each of its fields as a member, once and in the order of the fields
of the message. -/
structure Gathers (b : MessageBody) (k : Nat) (o : Oneof) : Prop where
  increasing : o.members.Pairwise (· < ·)
  mem_iff : ∀ j, j ∈ o.members ↔ ∃ f, b.fields[j]? = some f ∧ f.oneof = some k
  membersOf_eq : b.membersOf o = b.fields.filter fun f => f.oneof = some k

theorem gathers_of_members {k : Nat} {o : Oneof} (h : o.members = b.placesOf k) :
    b.Gathers k o := by
  constructor
  · have sub : (b.placesOf k).Sublist (List.range b.fields.length) := by
      rw [placesOf, List.range_eq_range', ← List.zipIdx_map_snd 0 b.fields]
      exact List.filter_sublist.map _
    rw [h]
    exact List.Pairwise.sublist sub List.pairwise_lt_range
  · intro j
    rw [h, placesOf, List.mem_map]
    constructor
    · rintro ⟨⟨f, i⟩, hf, rfl⟩
      obtain ⟨mem, oneof⟩ := List.mem_filter.mp hf
      exact ⟨f, List.mem_zipIdx_iff_getElem?.mp mem, of_decide_eq_true oneof⟩
    · rintro ⟨f, hf, oneof⟩
      refine ⟨(f, j), List.mem_filter.mpr ⟨?_, decide_eq_true oneof⟩, rfl⟩
      exact List.mem_zipIdx_iff_getElem?.mpr hf
  · have found (f : Field × Nat) (hf : f ∈ b.fields.zipIdx.filter fun f => f.1.oneof = some k) :
        b.fields[f.2]? = some f.1 :=
      List.mem_zipIdx_iff_getElem?.mp (List.mem_of_mem_filter hf)
    rw [membersOf, h, placesOf, List.filterMap_map]
    refine (List.filterMap_congr (g := some ∘ Prod.fst) found).trans ?_
    conv_rhs => rw [← List.zipIdx_map_fst 0 b.fields, List.filter_map]
    exact congrFun List.filterMap_eq_map _

/-! ## Links do not matter -/

theorem placesOf_unlinked (b : MessageBody) (k : Nat) : b.unlinked.placesOf k = b.placesOf k := by
  unfold placesOf unlinked
  rw [List.zipIdx_map, List.filter_map, List.map_map]
  rfl

theorem groups_unlinked : b.unlinked.Groups os fs ↔ b.Groups os fs := by
  have fields (P : FieldDescriptor → Field → Prop) :
      List.Forall₂ P fs b.unlinked.fields ↔ List.Forall₂ (fun d f => P d f.unlinked) fs b.fields :=
    List.forall₂_map_right_iff
  have extensions : (∀ x ∈ b.unlinked.extensions, x.oneof = none) ↔
      ∀ x ∈ b.extensions, x.oneof = none :=
    List.forall_mem_map
  constructor
  · rintro ⟨ho, hf, hm, hx⟩
    refine ⟨ho, (fields _).mp hf, fun k o hk => ?_, extensions.mp hx⟩
    rw [hm k o hk, placesOf_unlinked]
  · rintro ⟨ho, hf, hm, hx⟩
    refine ⟨ho, (fields _).mpr hf, fun k o hk => ?_, extensions.mpr hx⟩
    rw [hm k o hk, placesOf_unlinked]

/-! ## Messages and their descriptors -/

/-- The message is at the path of its descriptor in a file, and of this descriptor some first
oneofs and some first fields are read. -/
def Agrees (d : FileDescriptor) (b : MessageBody) : Prop :=
  ∃ (m : MessageDescriptor) (os : List OneofDescriptor) (fs : List FieldDescriptor),
    (Descriptor.file d).follow b.location.path = some (.message m) ∧ os <+: m.oneofs ∧
      fs <+: m.fields ∧ b.Groups os fs

theorem Agrees.gathers {d : FileDescriptor} (h : b.Agrees d) {k : Nat} {o : Oneof}
    (ho : b.oneofs[k]? = some o) : b.Gathers k o := by
  obtain ⟨_, os, fs, -, -, -, groups⟩ := h
  exact gathers_of_members (groups.members k o ho)

theorem Agrees.extensions {d : FileDescriptor} (h : b.Agrees d) :
    ∀ x ∈ b.extensions, x.oneof = none := by
  obtain ⟨_, os, fs, -, -, -, groups⟩ := h
  exact groups.extensions

theorem agrees_unlinked {d : FileDescriptor} : b.unlinked.Agrees d ↔ b.Agrees d := by
  unfold Agrees
  simp only [groups_unlinked]
  exact Iff.rfl

end MessageBody

namespace File

/-- What is read of a file agrees with its descriptor. -/
structure Agrees (d : FileDescriptor) (f : File) : Prop where
  name : f.name = d.name
  messages : ∀ m ∈ f.allMessages, m.Agrees d
  extensions : ∀ x ∈ f.extensions, x.oneof = none

variable {d : FileDescriptor} {f : File}

theorem agrees_unlinked : f.unlinked.Agrees d ↔ f.Agrees d := by
  have messages : (∀ m ∈ f.unlinked.allMessages, m.Agrees d) ↔ ∀ m ∈ f.allMessages, m.Agrees d := by
    rw [allMessages_unlinked, List.forall_mem_map]
    simp only [Message.unlinked, Message.toMessageBody_map, MessageBody.agrees_unlinked]
  have extensions : (∀ x ∈ f.unlinked.extensions, x.oneof = none) ↔
      ∀ x ∈ f.extensions, x.oneof = none :=
    List.forall_mem_map
  constructor
  · rintro ⟨name, hm, hx⟩
    exact ⟨name, messages.mp hm, extensions.mp hx⟩
  · rintro ⟨name, hm, hx⟩
    exact ⟨name, messages.mpr hm, extensions.mpr hx⟩

theorem Agrees.allExtensions (h : f.Agrees d) : ∀ x ∈ f.allExtensions, x.oneof = none := by
  refine List.forall_mem_append.mpr ⟨h.extensions, List.forall_mem_flatMap.mpr fun m hm => ?_⟩
  exact (h.messages m hm).extensions

end File

/-! ## Reading keeps both sides together -/

/-- A message at a path of which the oneofs `os` and the fields `fs` are read, with messages inside
that are read to some point. -/
structure Message.Reading (file : FileDescriptor) (path : List Int) (os : List OneofDescriptor)
    (fs : List FieldDescriptor) (m : Message) : Prop where
  path : m.location.path = path
  groups : m.Groups os fs
  nested : ∀ n ∈ allOf m.nested, n.Agrees file

/-- Oneofs and fields stay as they are while other things are read. -/
theorem Message.Reading.congr {file : FileDescriptor} {path : List Int} {os : List OneofDescriptor}
    {fs : List FieldDescriptor} {m n : Message} (h : m.Reading file path os fs)
    (same : (n.location, n.fullName, n.oneofs, n.fields) =
      (m.location, m.fullName, m.oneofs, m.fields)) (nested : n.nested = m.nested)
    (extensions : ∀ x ∈ n.extensions, x.oneof = none) : n.Reading file path os fs := by
  simp only [Prod.mk.injEq] at same
  obtain ⟨location, fullName, oneofs, fields⟩ := same
  refine ⟨location ▸ h.path, h.groups.congr fullName oneofs fields extensions, ?_⟩
  rw [nested]
  exact h.nested

/-- A message and all messages inside it agree with the descriptors at their paths. -/
def Message.AllAgree (file : FileDescriptor) (m : Message) : Prop := ∀ n ∈ m.all, n.Agrees file

theorem Message.Reading.allAgree {file : FileDescriptor} {path : List Int}
    {os : List OneofDescriptor} {fs : List FieldDescriptor} {m : Message} {d : MessageDescriptor}
    (h : m.Reading file path os fs)
    (follow : (Descriptor.file file).follow path = some (.message d))
    (hos : os <+: d.oneofs) (hfs : fs <+: d.fields) : m.AllAgree file := by
  refine Message.forall_mem_all_iff.mpr ⟨⟨d, os, fs, ?_, hos, hfs, h.groups⟩, h.nested⟩
  rw [h.path]
  exact follow

theorem Message.forall_mem_allOf_snoc {P : Message → Prop} {ms : List Message} {m : Message}
    (h : ∀ n ∈ allOf ms, P n) (hm : ∀ n ∈ m.all, P n) : ∀ n ∈ allOf (ms ++ [m]), P n := by
  rw [allOf_eq_flatMap] at h ⊢
  rw [List.flatMap_append, List.flatMap_singleton]
  exact List.forall_mem_append.mpr ⟨h, hm⟩

namespace Source

variable {σ : Type} (src : Source) {file : FileDescriptor} {path : List Int}
variable {os : List OneofDescriptor} {fs : List FieldDescriptor}

section Parts

variable {P E : σ → Prop} (stays : ∀ n, P n → E n)

include stays

theorem declareExtension_contract (parent : Option String) (path : List Int) (d : FieldDescriptor)
    {add : Field → σ → σ} (hadd : ∀ x n, x.oneof = none → P n → P (add x n)) :
    Draft.Contract P (src.declareExtension parent path d add) (fun _ => P) E := by
  refine Draft.contract_require stays fun x hx => ?_
  obtain ⟨-, rfl⟩ := src.field_eq_ok_iff.mp hx
  refine (Draft.contract_declare _ stays).seq fun _ => ?_
  exact Draft.contract_edit fun n hn => hadd _ n rfl hn

theorem declareEnum_contract (parent : Option String) (path : List Int) (d : EnumDescriptor)
    {add : EnumType → σ → σ} (hadd : ∀ e n, P n → P (add e n)) :
    Draft.Contract P (src.declareEnum parent path d add) (fun _ => P) E := by
  refine Draft.contract_require stays fun name _ => ?_
  refine (Draft.contract_declare _ stays).seq fun _ => ?_
  exact Draft.contract_adopt (Draft.contract_any _ _) (fun e n _ => hadd e n)
    fun e n _ hn => stays _ (hadd e n hn)

theorem declareMessage_contract (parent : Option String) (path : List Int) (d : MessageDecl)
    {add : Message → σ → σ} {fill : Draft Message Unit} {C : Message → Prop}
    (hfill : Draft.Contract (· = src.blankMessage parent path d) fill (fun _ => C) C)
    (hadd : ∀ m n, C m → P n → P (add m n)) :
    Draft.Contract P (src.declareMessage parent path d add fill) (fun _ => P) E := by
  refine Draft.contract_require stays fun name hname => ?_
  obtain ⟨-, rfl⟩ := requireName_eq_ok_iff.mp hname
  refine (Draft.contract_declare _ stays).seq fun _ => ?_
  exact Draft.contract_adopt hfill (fun m n => hadd m n) fun m n hm hn => stays _ (hadd m n hm hn)

end Parts

theorem fillOneof_contract {E : Message → Prop} (stays : ∀ m, m.Reading file path os [] → E m)
    (p : List Int) (i : Nat) (d : OneofDescriptor) :
    Draft.Contract (Message.Reading file path os []) (src.fillOneof p i d)
      (fun _ => Message.Reading file path (os ++ [d]) []) E := by
  refine Draft.contract_ask fun m => ?_
  refine Draft.contract_require (fun n hn => stays n hn.1) fun name hname => ?_
  obtain ⟨-, rfl⟩ := requireName_eq_ok_iff.mp hname
  refine Draft.contract_edit ?_
  rintro n ⟨hn, rfl⟩
  exact ⟨hn.path, hn.groups.addOneof rfl rfl rfl, hn.nested⟩

section Inside

variable {E : Message → Prop} (stays : ∀ m, m.Reading file path os fs → E m)

include stays

theorem fillField_contract (p : List Int) (i : Nat) (d : FieldDescriptor) :
    Draft.Contract (Message.Reading file path os fs) (src.fillField p i d)
      (fun _ => Message.Reading file path os (fs ++ [d])) E := by
  refine Draft.contract_ask fun m => ?_
  refine Draft.contract_require (fun n hn => stays n hn.1) fun oneof hplace => ?_
  refine Draft.contract_require (fun n hn => stays n hn.1) fun f hf => ?_
  obtain ⟨range, rfl⟩ := oneofPlace_eq_ok_iff.mp hplace
  obtain ⟨-, rfl⟩ := src.field_eq_ok_iff.mp hf
  refine Draft.contract_edit ?_
  rintro n ⟨hn, rfl⟩
  exact ⟨hn.path, hn.groups.addField rfl rfl rfl range, hn.nested⟩

theorem fillEnums_contract (scope : String) (p : List Int) (ds : List EnumDescriptor) :
    Draft.Contract (Message.Reading file path os fs)
      (Draft.forEach (fun i e => src.declareEnum (some scope) (p ++ [Tag.enums, (i : Int)]) e
        fun enum m => { m with ownEnums := m.ownEnums ++ [enum] }) 0 ds)
      (fun _ => Message.Reading file path os fs) E := by
  refine Draft.contract_forEach_const fun i d _ => ?_
  refine src.declareEnum_contract stays _ _ d fun e m hm => ?_
  exact hm.congr rfl rfl hm.groups.extensions

theorem fillExtensions_contract (scope : String) (p : List Int) (ds : List FieldDescriptor) :
    Draft.Contract (Message.Reading file path os fs)
      (Draft.forEach (fun i x => src.declareExtension (some scope)
        (p ++ [Tag.extensions, (i : Int)]) x
        fun extension m => { m with extensions := m.extensions ++ [extension] }) 0 ds)
      (fun _ => Message.Reading file path os fs) E := by
  refine Draft.contract_forEach_const fun i d _ => ?_
  refine src.declareExtension_contract stays _ _ d fun x m hx hm => ?_
  exact hm.congr rfl rfl (forall_mem_snoc hm.groups.extensions hx)

end Inside

mutual

/-- However far a message is read, it agrees with its descriptor, and so do the messages in it. -/
theorem fillMessage_contract {path : List Int} (parent : Option String) :
    ∀ d : MessageDescriptor, (Descriptor.file file).follow path = some (.message d) →
    Draft.Contract (· = src.blankMessage parent path d.toMessageDecl) (src.fillMessage path d)
      (fun _ => Message.AllAgree file) (Message.AllAgree file)
  | ⟨d, nested⟩, h => by
    have agree {os : List OneofDescriptor} {fs : List FieldDescriptor} (hos : os <+: d.oneofs)
        (hfs : fs <+: d.fields) (m : Message) (hm : m.Reading file path os fs) :
        m.AllAgree file := hm.allAgree h hos hfs
    have whole := agree List.prefix_rfl List.prefix_rfl
    have oneofs : Draft.Contract (Message.Reading file path [] [])
        (Draft.forEach (src.fillOneof path) 0 d.oneofs)
        (fun _ => Message.Reading file path d.oneofs []) (Message.AllAgree file) := by
      refine Draft.contract_forEach (fun os => Message.Reading file path os []) ?_
      intro front o back split
      exact src.fillOneof_contract (agree ⟨o :: back, split.symm⟩ List.nil_prefix) path _ o
    have fields : Draft.Contract (Message.Reading file path d.oneofs [])
        (Draft.forEach (src.fillField path) 0 d.fields)
        (fun _ => Message.Reading file path d.oneofs d.fields) (Message.AllAgree file) := by
      refine Draft.contract_forEach (Message.Reading file path d.oneofs) ?_
      intro front f back split
      exact src.fillField_contract (agree List.prefix_rfl ⟨f :: back, split.symm⟩) path _ f
    have inside := fillNested_contract whole 0 nested (follow_children h rfl)
    have rest (scope : String) := (src.fillEnums_contract whole scope path d.enums).seq fun _ =>
      (src.fillExtensions_contract whole scope path d.extensions).seq fun _ => Draft.contract_edit
        (f := fun m : Message => { m with isComplete := true })
        (Q := fun _ => Message.AllAgree file)
        fun m hm => whole _ (hm.congr rfl rfl hm.groups.extensions)
    rw [fillMessage]
    refine Draft.Contract.restrict (oneofs.seq fun _ => fields.seq fun _ => inside.seq fun _ =>
      Draft.contract_ask fun scope => (rest scope).restrict fun m hm => hm.1) ?_
    rintro m rfl
    exact ⟨path_of_location (n := .message (src.blankMessage parent path d)) rfl,
      .of_empty rfl rfl rfl, List.forall_mem_nil _⟩

theorem fillNested_contract {path : List Int} {os : List OneofDescriptor}
    {fs : List FieldDescriptor} {E : Message → Prop}
    (stays : ∀ m, m.Reading file path os fs → E m) (i : Nat) : ∀ ds : List MessageDescriptor,
    (∀ a ∈ ds.zipIdx i,
      (Descriptor.file file).follow (path ++ [3, (a.2 : Int)]) = some (.message a.1)) →
    Draft.Contract (Message.Reading file path os fs) (src.fillNested path i ds)
      (fun _ => Message.Reading file path os fs) E
  | [], _ => by
    rw [fillNested]
    exact Draft.contract_pure fun _ hm => hm
  | d :: ds, h => by
    rw [List.zipIdx_cons, List.forall_mem_cons] at h
    rw [fillNested]
    refine Draft.contract_ask fun scope => ?_
    refine Draft.Contract.seq (Draft.Contract.restrict (src.declareMessage_contract stays _ _ _
      (fillMessage_contract (some scope) d h.1) ?_) fun m hm => hm.1) fun _ =>
        fillNested_contract stays (i + 1) ds h.2
    intro n m hn hm
    exact ⟨hm.path, hm.groups.congr rfl rfl rfl hm.groups.extensions,
      Message.forall_mem_allOf_snoc hm.nested hn⟩

end

theorem declareService_contract {P E : File → Prop} (stays : ∀ f, P f → E f) (path : List Int)
    (d : ServiceDescriptor)
    (hadd : ∀ (s : Service) f, P f → P { f with ownServices := f.ownServices ++ [s] }) :
    Draft.Contract P (src.declareService path d) (fun _ => P) E := by
  refine Draft.contract_require stays fun name _ => ?_
  refine (Draft.contract_declare _ stays).seq fun _ => ?_
  exact Draft.contract_adopt (Draft.contract_any _ _) (fun s f _ => hadd s f)
    fun s f _ hf => stays _ (hadd s f hf)

end Source

namespace FileDescriptor

variable (d : FileDescriptor)

/-- However far a file is read, it agrees with its descriptor. -/
theorem fill_contract (src : Source) :
    Draft.Contract (File.Agrees d) (d.fill src) (fun _ => File.Agrees d) (File.Agrees d) := by
  have stays (f : File) (hf : f.Agrees d) : f.Agrees d := hf
  have root : (Descriptor.file d).follow [] = some (.file d) := rfl
  have places : ∀ a ∈ d.messages.zipIdx, (Descriptor.file d).follow
      [Tag.fileMessages, (a.2 : Int)] = some (.message a.1) := follow_children root rfl
  unfold fill
  refine (Draft.contract_forEach (fun _ => File.Agrees d) ?messages).seq fun _ =>
    (Draft.contract_forEach_const ?enums).seq fun _ =>
    (Draft.contract_forEach_const ?services).seq fun _ =>
    (Draft.contract_forEach_const ?extensions).seq fun _ => Draft.contract_edit ?last
  case messages =>
    intro front m back split
    have follow := places (m, front.length) (List.mem_zipIdx_iff_getElem?.mpr (by simp [split]))
    refine src.declareMessage_contract stays none _ _ (src.fillMessage_contract none m follow) ?_
    intro n f hn hf
    exact ⟨hf.name, Message.forall_mem_allOf_snoc hf.messages hn, hf.extensions⟩
  case enums =>
    intro i e _
    refine src.declareEnum_contract stays none _ e fun enum f hf => ?_
    exact ⟨hf.name, hf.messages, hf.extensions⟩
  case services =>
    intro i s _
    refine src.declareService_contract stays _ s fun service f hf => ?_
    exact ⟨hf.name, hf.messages, hf.extensions⟩
  case extensions =>
    intro i x _
    refine src.declareExtension_contract stays none _ x fun extension f hx hf => ?_
    exact ⟨hf.name, hf.messages, forall_mem_snoc hf.extensions hx⟩
  case last => exact fun f hf => ⟨hf.name, hf.messages, hf.extensions⟩

/-- Whatever becomes of a declaration, the file that it leaves agrees with its descriptor. -/
theorem declare_contract (scheme : ImportScheme) (generate : Bool) (fs : List File) :
    Draft.Contract (· = fs) (d.declare scheme generate)
      (fun _ gs => gs = fs ∨ ∃ f, gs = fs ++ [f] ∧ f.Agrees d)
      fun gs => gs = fs ∨ ∃ f, gs = fs ++ [f] ∧ f.Agrees d := by
  unfold declare
  split
  · exact fun gs _ hgs => .inl hgs
  · refine (Draft.contract_declare _ fun gs hgs => .inl hgs).seq fun _ => ?_
    have start : (d.blank (d.source scheme) generate).Agrees d :=
      ⟨rfl, List.forall_mem_nil _, List.forall_mem_nil _⟩
    refine Draft.contract_adopt ((d.fill_contract (d.source scheme)).restrict ?_) ?_ ?_
    · rintro f rfl
      exact start
    · rintro f gs hf rfl
      exact .inr ⟨f, rfl, hf⟩
    · rintro f gs hf rfl
      exact .inr ⟨f, rfl, hf⟩

end FileDescriptor

/-! ## Declarations and their registrations -/

namespace Schema

variable (scheme : ImportScheme)

/-- A declaration leaves the schema as it is, or it adds a file that agrees with the descriptor and
registers the messages in it. -/
theorem leaves_declare_agrees (generate : Bool) (d : FileDescriptor) (s : Schema) :
    leaves (declare scheme generate d) s = s ∨ ∃ news f, f.Agrees d ∧
      news.filter (·.kind == .message) = f.allMessages.map (·.symbol) ∧
      leaves (declare scheme generate d) s = ⟨s.registry.extend news, s.files ++ [f]⟩ := by
  have read : (leaves (declare scheme generate d) s).files = s.files ∨
      ∃ f, (leaves (declare scheme generate d) s).files = s.files ++ [f] ∧ f.Agrees d := by
    have contract := d.declare_contract scheme generate s.files s.files s.registry rfl
    unfold leaves declare
    cases hd : d.declare scheme generate (s.files, s.registry) <;> rw [hd] at contract <;>
      exact contract
  have agrees (f : File) (left : (leaves (declare scheme generate d) s).files = s.files ++ [f]) :
      f.Agrees d := by
    rw [left] at read
    rcases read with same | ⟨g, more, hg⟩
    · exact absurd same (by simp)
    · obtain rfl := List.singleton_inj.mp (List.append_cancel_left more)
      exact hg
  cases h : declare scheme generate d s with
  | ok u t =>
    have left : leaves (declare scheme generate d) s = t := by rw [leaves, h, final]
    obtain ⟨-, rfl⟩ := (declare_yields scheme generate d s t).mp h
    refine .inr ⟨_, _, agrees _ (congrArg files left), ?_, left⟩
    exact (d.map_symbol_allMessages_node scheme generate).symm
  | error e t =>
    have left : leaves (declare scheme generate d) s = t := by rw [leaves, h, final]
    rcases declare_eq_error h with rfl | ⟨rest, f, -, -, rfl, -, begun⟩
    · exact .inl left
    · have symbols : (f.symbol :: rest).filter (·.kind == .message) =
          f.allMessages.map (·.symbol) := begun.forest.symbols
      exact .inr ⟨_, f, agrees f (congrArg files left), symbols, left⟩

/-! ## In every state of a session -/

/-- The step of a session that has added a file, which may have been linked since, declares `d`. -/
def Adds (steps : List Step) (d : FileDescriptor) (f : File) : Prop :=
  ∃ before generate later g, steps = before ++ .declare generate d :: later ∧
    (afterAll scheme {} (before ++ [.declare generate d])).files =
      (afterAll scheme {} before).files ++ [g] ∧ g.unlinked = f.unlinked

variable {scheme} {steps : List Step} {d : FileDescriptor} {f g : File}

theorem Adds.later (h : Adds scheme steps d f) (step : Step) (same : f.unlinked = g.unlinked) :
    Adds scheme (steps ++ [step]) d g := by
  obtain ⟨before, generate, later, k, rfl, added, hk⟩ := h
  refine ⟨before, generate, later ++ [step], k, ?_, added, hk.trans same⟩
  rw [List.append_assoc, List.cons_append]

/-- The messages that are registered are those of the files, and each file agrees with the
descriptor that it was made of. -/
structure Grouped (scheme : ImportScheme) (steps : List Step) (s : Schema) : Prop where
  registered : ∀ t, t ∈ s.registry.all .message ↔
    t ∈ (s.files.flatMap File.allMessages).map (·.symbol)
  agrees : ∀ f ∈ s.files, ∃ d, Adds scheme steps d f ∧ f.Agrees d

variable {s t : Schema}

/-- It is enough to know what a schema was before it was linked. -/
theorem Grouped.later (h : Grouped scheme steps s) (step : Step)
    (registry : ∀ u, u ∈ t.registry.all .message ↔ u ∈ s.registry.all .message)
    (files : t.files.map File.unlinked = s.files.map File.unlinked) :
    Grouped scheme (steps ++ [step]) t := by
  constructor
  · have symbols : ∀ s : Schema, (s.files.flatMap File.allMessages).map (·.symbol) =
        (s.files.map File.unlinked).flatMap fun f => f.allMessages.map (·.symbol) := by
      intro s
      rw [← List.map_flatMap]
      exact (map_symbol_unlinked Nodes.messages s).symm
    intro u
    rw [registry, h.registered, symbols, symbols, files]
  · intro g hg
    obtain ⟨f, hf, same⟩ := List.mem_map.mp (files ▸ List.mem_map_of_mem hg)
    obtain ⟨d, adds, agrees⟩ := h.agrees f hf
    refine ⟨d, adds.later step same, ?_⟩
    rwa [← File.agrees_unlinked, ← same, File.agrees_unlinked]

/-- A file is added together with its messages. -/
theorem Grouped.add (h : Grouped scheme steps s) {step : Step} {news : List Symbol}
    (adds : Adds scheme (steps ++ [step]) d f) (agrees : f.Agrees d)
    (symbols : news.filter (·.kind == .message) = f.allMessages.map (·.symbol)) :
    Grouped scheme (steps ++ [step]) ⟨s.registry.extend news, s.files ++ [f]⟩ := by
  constructor
  · intro t
    rw [Registry.all_extend, List.mem_append, h.registered, symbols, List.flatMap_append,
      List.flatMap_singleton, List.map_append, List.mem_append]
  · refine forall_mem_snoc (fun g hg => ?_) ⟨d, adds, agrees⟩
    obtain ⟨d', adds', agrees'⟩ := h.agrees g hg
    exact ⟨d', adds'.later step rfl, agrees'⟩

/-- Each step preserves this, whether it goes through or not. -/
theorem Grouped.step (h : Grouped scheme steps (afterAll scheme {} steps)) (step : Step) :
    Grouped scheme (steps ++ [step]) (afterAll scheme {} (steps ++ [step])) := by
  have next : afterAll scheme {} (steps ++ [step]) =
      leaves (perform scheme step) (afterAll scheme {} steps) := by
    rw [← after_eq_leaves, afterAll, List.foldl_concat, ← afterAll]
  rw [next]
  generalize hs : afterAll scheme {} steps = s at h next
  cases step with
  | declare generate d =>
    rw [perform] at next ⊢
    rcases leaves_declare_agrees scheme generate d s with left | ⟨news, f, agrees, symbols, left⟩
    · rw [left]
      exact h.later _ (fun _ => .rfl) rfl
    · rw [left] at next ⊢
      refine h.add ⟨steps, generate, [], f, rfl, ?_, rfl⟩ agrees symbols
      rw [next, hs]
  | link name =>
    rw [perform]
    have same : (leaves (linkFile name) s).unlinked = s.unlinked := linkFile_moves name s
    have registry : (leaves (linkFile name) s).registry = s.registry := (congrArg registry same :)
    exact h.later _ (fun u => by rw [registry]) (congrArg files same)
  | registerAs kind name key =>
    rw [perform]
    rcases leaves_registerAs kind name key s with left | ⟨t, ht, left⟩
    · rw [left]
      exact h.later _ (fun _ => .rfl) rfl
    · rw [left]
      exact h.later _ (fun _ => Registry.mem_all_alias ht) rfl
  | reregister kind name =>
    have own : s.registry.OwnNames := hs ▸ (indexed_afterAll scheme .start steps).own
    rw [leaves_reregister_eq scheme own]
    exact h.later _ (fun _ => .rfl) rfl

theorem grouped_afterAll (scheme : ImportScheme) (steps : List Step) :
    Grouped scheme steps (afterAll scheme {} steps) := by
  induction steps using List.reverseRecOn with
  | nil => exact ⟨fun _ => .rfl, List.forall_mem_nil _⟩
  | append_singleton steps step ih => exact ih.step step

/-- What holds of the oneofs in a schema that a session has left. -/
structure OneofsAgree (scheme : ImportScheme) (steps : List Step) (s : Schema) : Prop where
  /-- The messages that are registered are those that the files hold, listed or not. -/
  registered : ∀ t, t ∈ s.registry.all .message ↔
    ∃ f ∈ s.files, ∃ m ∈ f.allMessages, m.symbol = t
  /-- Their oneofs and fields are those that the descriptor says, as far as they are read, and a
  field is in the oneof that its descriptor says. -/
  declared : ∀ f ∈ s.files, ∃ d, Adds scheme steps d f ∧ f.name = d.name ∧
    ∀ m ∈ f.allMessages, m.Agrees d
  /-- A oneof has exactly the fields as members that are in it. -/
  gathered : ∀ f ∈ s.files, ∀ m ∈ f.allMessages, ∀ k o, m.oneofs[k]? = some o → m.Gathers k o
  /-- Extensions are in no oneof, whatever their descriptors say. -/
  extensions : ∀ f ∈ s.files, ∀ x ∈ f.allExtensions, x.oneof = none

/-- Whatever a session declares, links and registers, and wherever it fails: the fields of a message
and its oneofs agree about which field is in which oneof, and so they do with the descriptor of the
message, of which they are the oneofs and fields that are read. -/
theorem oneofs_agree (scheme : ImportScheme) (steps : List Step) :
    OneofsAgree scheme steps (afterAll scheme {} steps) := by
  have grouped := grouped_afterAll scheme steps
  constructor
  · intro t
    rw [grouped.registered, List.mem_map]
    constructor
    · rintro ⟨m, hm, rfl⟩
      obtain ⟨f, hf, hm⟩ := List.mem_flatMap.mp hm
      exact ⟨f, hf, m, hm, rfl⟩
    · rintro ⟨f, hf, m, hm, rfl⟩
      exact ⟨m, List.mem_flatMap.mpr ⟨f, hf, hm⟩, rfl⟩
  · intro f hf
    obtain ⟨d, adds, agrees⟩ := grouped.agrees f hf
    exact ⟨d, adds, agrees.name, agrees.messages⟩
  · intro f hf m hm k o ho
    obtain ⟨d, -, agrees⟩ := grouped.agrees f hf
    exact (agrees.messages m hm).gathers ho
  · intro f hf
    obtain ⟨d, -, agrees⟩ := grouped.agrees f hf
    exact agrees.allExtensions

/-- A message whose last field has no number, so that it is left without this field. -/
def tornFile : FileDescriptor where
  name := "torn.proto"
  messages := [
    { name := "Choice"
      oneofs := [{ name := "color" }, { name := "size" }]
      fields := [
        { name := "red", number := 1, kind := some .bool, label := some 1, oneofIndex := some 0 },
        { name := "small", number := 2, kind := some .bool, label := some 1, oneofIndex := some 1 },
        { name := "note", number := 3, kind := some .string, label := some 1 },
        { name := "blue", number := 4, kind := some .bool, label := some 1, oneofIndex := some 0 },
        { name := "large", kind := some .bool, label := some 1, oneofIndex := some 1 }] }]

example : ((afterAll .bundled {} [.declare true tornFile, .link "torn.proto"]).files.flatMap
    (·.allMessages)).map (fun m => (m.fields.map (·.oneof), m.oneofs.map fun o =>
      (m.membersOf o).map (·.name))) =
    [([some 0, some 1, none, some 0], [["red", "blue"], ["small"]])] := by decide +kernel

end Schema

end Protolink
