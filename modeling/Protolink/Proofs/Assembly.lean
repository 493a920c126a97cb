import Mathlib.Data.List.Forall2
import Protolink.Proofs.Blueprint
import Protolink.Proofs.Linked
import Protolink.Schema

/-!
# Schemas of files

Declaring all files and then linking all of them, each in one equivalence, and the two together:
`Schema.ofFiles_eq_ok_iff` says when files make a schema, and which.

The conditions of the second half are stated of the nodes and of the registry that the first half
leaves.  `node_linkable_iff` carries them back to the descriptors and to the keys that the files
declare.
-/

namespace Protolink

/-! ## Lists made element by element -/

section Lists

variable {α β : Type}

/-- Places play no part in what is made of the elements alone. -/
theorem map_zipIdx_fst (g : α → β) (as : List α) (i : Nat) :
    ((as.zipIdx i).map fun a => g a.1) = as.map g := by
  conv_rhs => rw [← List.zipIdx_map_fst i as, List.map_map]
  rfl

theorem forall_mem_zipIdx {P : α → Prop} (as : List α) (i : Nat) :
    (∀ a ∈ as.zipIdx i, P a.1) ↔ ∀ a ∈ as, P a := by
  rw [← List.forall_mem_map (P := P) (f := Prod.fst), List.zipIdx_map_fst]

theorem forall₂_map_zipIdx {R : α → β → Prop} {g : α × Nat → β} (h : ∀ a i, R a (g (a, i)))
    (as : List α) (i : Nat) : List.Forall₂ R as ((as.zipIdx i).map g) := by
  induction as generalizing i with
  | nil => exact .nil
  | cons a as ih => exact .cons (h a i) (ih (i + 1))

theorem forall₂_filterMap {R : α → β → Prop} {g : α → Option β} {as : List α}
    (h : ∀ a ∈ as, ∃ b, g a = some b ∧ R a b) : List.Forall₂ R as (as.filterMap g) := by
  induction as with
  | nil => exact .nil
  | cons a as ih =>
    obtain ⟨⟨b, hb, hR⟩, has⟩ := List.forall_mem_cons.mp h
    rw [List.filterMap_cons_some hb]
    exact .cons hR (ih has)

/-- What two lists that are related element by element pass on. -/
theorem forall_mem_of_forall₂ {R : α → β → Prop} {P : α → Prop} {Q : β → Prop} {as : List α}
    {bs : List β} (h : List.Forall₂ R as bs) (step : ∀ a b, R a b → P a → Q b)
    (hP : ∀ a ∈ as, P a) : ∀ b ∈ bs, Q b := by
  induction h with
  | nil => exact List.forall_mem_nil _
  | cons hab _ ih =>
    rw [List.forall_mem_cons] at hP ⊢
    exact ⟨step _ _ hab hP.1, ih hP.2⟩

theorem forall_mem_right_of_forall₂ {R : α → β → Prop} {Q : β → Prop} {as : List α} {bs : List β}
    (h : List.Forall₂ R as bs) (hq : ∀ a b, R a b → Q b) : ∀ b ∈ bs, Q b :=
  forall_mem_of_forall₂ (P := fun _ => True) h (fun a b hab _ => hq a b hab) fun _ _ => trivial

theorem forall_mem_congr_of_forall₂ {P : α → Prop} {Q : β → Prop} {as : List α} {bs : List β}
    (h : List.Forall₂ (fun a b => P a ↔ Q b) as bs) : (∀ a ∈ as, P a) ↔ ∀ b ∈ bs, Q b :=
  ⟨forall_mem_of_forall₂ h fun _ _ hab => hab.mp,
    forall_mem_of_forall₂ h.flip fun _ _ hab => hab.mpr⟩

end Lists

/-! ## Nodes that are just made

Every slot of such a node is open and everything in it is listed, so what linking asks of it is
that its references mean something. -/

section Fresh

variable {src : Source} {r : Registry Symbol} {keys : List (DeclKind × String)}

namespace Source

theorem bodyNode_fields (parent : Option String) (path : List Int) (d : MessageDecl) :
    (src.bodyNode parent path d).fields = d.fields.zipIdx.map fun f =>
      src.memberNode (Name.join (src.scope parent) d.name) path f.2 f.1 := by
  simp [bodyNode, blankMessage]

@[simp] theorem bodyNode_extensions (parent : Option String) (path : List Int) (d : MessageDecl) :
    (src.bodyNode parent path d).extensions = d.extensions.zipIdx.map fun x =>
      src.fieldNode (some (Name.join (src.scope parent) d.name)) none
        (path ++ [Tag.extensions, (x.2 : Int)]) x.1 := rfl

@[simp] theorem bodyNode_fullName (parent : Option String) (path : List Int) (d : MessageDecl) :
    (src.bodyNode parent path d).fullName = Name.join (src.scope parent) d.name := by
  simp [bodyNode, blankMessage]

@[simp] theorem bodyNode_hidesEntries (parent : Option String) (path : List Int) (d : MessageDecl) :
    (src.bodyNode parent path d).hidesEntries = false :=
  MessageBody.foldl_addField_frame (g := MessageBody.hidesEntries) (fun _ _ => rfl) _ _

@[simp] theorem bodyNode_isComplete (parent : Option String) (path : List Int) (d : MessageDecl) :
    (src.bodyNode parent path d).isComplete = true := rfl

/-- What the oneofs of a message say but for their members is said by the declarations. -/
theorem map_oneofs_bodyNode {γ : Type} {g : Oneof → γ}
    (hg : ∀ (o : Oneof) (ms : List Nat), g { o with members := ms } = g o)
    (parent : Option String) (path : List Int) (d : MessageDecl) :
    (src.bodyNode parent path d).oneofs.map g = d.oneofs.zipIdx.map fun o =>
      g (src.oneofNode (Name.join (src.scope parent) d.name) path o.2 o.1) := by
  have h := MessageBody.foldl_addField_frame (g := fun b => b.oneofs.map g)
    (fun b f => b.map_oneofs_addField f hg)
  rw [bodyNode]
  exact (h _ _).trans List.map_map

mutual

/-- The nodes of a message and of the messages inside it correspond to the declarations. -/
theorem forall₂_messageNode {R : String × MessageDecl → MessageBody → Prop}
    (h : ∀ parent path d, R (Name.join (src.scope parent) d.name, d) (src.bodyNode parent path d))
    (parent : Option String) (path : List Int) : ∀ d : MessageDescriptor,
    List.Forall₂ (fun p n => R p n.toMessageBody) (d.all (src.scope parent))
      (src.messageNode parent path d).all
  | ⟨d, nested⟩ => by
    rw [messageNode, Message.all, MessageDescriptor.all]
    exact .cons (h parent path d) (forall₂_nestedNodes h _ path 0 nested)

theorem forall₂_nestedNodes {R : String × MessageDecl → MessageBody → Prop}
    (h : ∀ parent path d, R (Name.join (src.scope parent) d.name, d) (src.bodyNode parent path d))
    (message : String) (path : List Int) (i : Nat) : ∀ ds : List MessageDescriptor,
    List.Forall₂ (fun p n => R p n.toMessageBody) (MessageDescriptor.allOf message ds)
      (Message.allOf (src.nestedNodes message path i ds))
  | [] => .nil
  | d :: ds => by
    rw [nestedNodes, Message.allOf, MessageDescriptor.allOf]
    exact List.rel_append (forall₂_messageNode h (some message) _ d)
      (forall₂_nestedNodes h message path (i + 1) ds)

end

/-- The bodies in a message's node have a property if its declarations have the like of it. -/
theorem forall_mem_all_messageNode {P : MessageBody → Prop} {Q : String × MessageDecl → Prop}
    (h : ∀ parent path d, P (src.bodyNode parent path d) ↔
      Q (Name.join (src.scope parent) d.name, d))
    (parent : Option String) (path : List Int) (d : MessageDescriptor) :
    (∀ n ∈ (src.messageNode parent path d).all, P n.toMessageBody) ↔
      ∀ p ∈ d.all (src.scope parent), Q p := by
  have nodes := forall₂_messageNode (R := fun p b => Q p ↔ P b)
    (fun parent path d => (h parent path d).symm) parent path d
  exact (forall_mem_congr_of_forall₂ nodes).symm

theorem fresh_messageNode (parent : Option String) (path : List Int) (d : MessageDescriptor) :
    (src.messageNode parent path d).Fresh := by
  refine (forall_mem_all_messageNode (P := fun b => b.isComplete = true ∧ b.hidesEntries = false)
    (Q := fun _ => True) ?_ parent path d).mpr ?_
  · intro parent path d
    simp
  · intro p _
    trivial

@[simp] theorem messageNode_isComplete (parent : Option String) (path : List Int)
    (d : MessageDescriptor) : (src.messageNode parent path d).isComplete = true :=
  (Message.fresh_iff.mp (src.fresh_messageNode parent path d)).1.1

/-! ### What linking asks of them -/

variable (h : ∀ kind key, (r.lookup kind key).isSome ↔ (kind, key) ∈ keys)

include h

theorem isSome_resolve_iff_denotes {kind : DeclKind} {scope typeName : String} :
    (r.resolve [kind] scope typeName).isSome ↔ Denotes keys kind scope typeName := by
  simp only [Registry.isSome_resolve_iff, h, Denotes]

theorem fieldNode_linkable_iff (parent : Option String) (oneof : Option Nat) (path : List Int)
    (d : FieldDescriptor) :
    (src.fieldNode parent oneof path d).IsOpen ∧ (src.fieldNode parent oneof path d).Resolves r ↔
      d.Denotes keys (src.scope parent) := by
  have hopen : (src.fieldNode parent oneof path d).IsOpen := ⟨rfl, rfl, rfl⟩
  have hkind : (d.kind.getD .double).targetKind? = d.kind.bind FieldKind.targetKind? := by
    cases d.kind <;> rfl
  simp only [hopen, true_and, Field.resolves_iff, FieldDescriptor.denotes_iff,
    isSome_resolve_iff_denotes h]
  simp only [fieldNode, hkind]
  exact Iff.rfl

theorem bodyNode_linkable_iff (parent : Option String) (path : List Int) (d : MessageDecl) :
    (src.bodyNode parent path d).Linkable r ↔
      ∀ f ∈ d.fields ++ d.extensions, f.Denotes keys (Name.join (src.scope parent) d.name) := by
  simp only [MessageBody.linkable_iff, bodyNode_fields, bodyNode_extensions, List.forall_mem_map,
    memberNode, fieldNode_linkable_iff h, List.forall_mem_append]
  exact and_congr (forall_mem_zipIdx d.fields 0) (forall_mem_zipIdx d.extensions 0)

theorem messageNode_linkable_iff (parent : Option String) (path : List Int)
    (d : MessageDescriptor) :
    (src.messageNode parent path d).ForListed (MessageBody.Linkable r) ↔
      ∀ p ∈ d.all (src.scope parent), ∀ f ∈ p.2.fields ++ p.2.extensions, f.Denotes keys p.1 := by
  rw [Message.forListed_iff _ _ (src.fresh_messageNode parent path d)]
  exact forall_mem_all_messageNode (bodyNode_linkable_iff h) parent path d

theorem methodNode_linkable_iff (service : String) (path : List Int) (i : Nat)
    (d : MethodDescriptor) :
    (src.methodNode service path i d).Linkable r service ↔ d.Denotes keys service := by
  simp only [Method.linkable_iff, MethodDescriptor.denotes_iff, isSome_resolve_iff_denotes h]
  simp only [methodNode, true_and]

end Source

/-- The messages in the node of a file correspond to the messages that the file declares. -/
theorem FileDescriptor.forall₂_allMessages {R : String × MessageDecl → MessageBody → Prop}
    (d : FileDescriptor) (scheme : ImportScheme) (generate : Bool)
    (h : ∀ parent path m, R (Name.join ((d.source scheme).scope parent) m.name, m)
      ((d.source scheme).bodyNode parent path m)) :
    List.Forall₂ (fun p n => R p n.toMessageBody) d.allMessages
      (d.node scheme generate).allMessages := by
  rw [allMessages, MessageDescriptor.allOf_eq_flatMap, File.allMessages, Message.allOf_eq_flatMap]
  refine List.rel_flatMap (R := fun m n => List.Forall₂ (fun p n => R p n.toMessageBody)
    (m.all d.package) n.all) (forall₂_map_zipIdx (fun m i => ?_) d.messages 0) fun _ _ h => h
  exact Source.forall₂_messageNode h none _ m

/-- A file that is just made can be linked exactly if what its descriptor refers to is there. -/
theorem FileDescriptor.node_linkable_iff
    (h : ∀ kind key, (r.lookup kind key).isSome ↔ (kind, key) ∈ keys) (d : FileDescriptor)
    (scheme : ImportScheme) (generate : Bool) :
    (d.node scheme generate).Linkable r ↔
      (∀ n ∈ d.dependencies, (.file, n) ∈ keys) ∧ (∀ p ∈ d.allFields, p.2.Denotes keys p.1) ∧
        ∀ p ∈ d.allMethods, p.2.Denotes keys p.1 := by
  have messages : (∀ m ∈ (d.node scheme generate).ownMessages, m.isComplete →
      m.ForListed (MessageBody.Linkable r)) ↔
      ∀ p ∈ d.allMessages, ∀ f ∈ p.2.fields ++ p.2.extensions, f.Denotes keys p.1 := by
    simp only [node, List.forall_mem_map, Source.messageNode_isComplete, true_imp_iff,
      Source.messageNode_linkable_iff h, FileDescriptor.allMessages,
      MessageDescriptor.allOf_eq_flatMap, List.forall_mem_flatMap]
    exact forall_mem_zipIdx (P := fun m : MessageDescriptor => ∀ p ∈ m.all d.package,
      ∀ f ∈ p.2.fields ++ p.2.extensions, f.Denotes keys p.1) d.messages 0
  have services : (∀ s ∈ (d.node scheme generate).ownServices, s.isComplete → ∀ m ∈ s.methods,
      m.Linkable r s.fullName) ↔ ∀ p ∈ d.allMethods, p.2.Denotes keys p.1 := by
    simp only [node, allMethods, List.forall_mem_flatMap, List.forall_mem_map, Source.serviceNode,
      true_imp_iff, Source.methodNode_linkable_iff h]
    refine (forall_mem_zipIdx (P := fun s : ServiceDescriptor => ∀ m ∈ s.methods.zipIdx,
      m.1.Denotes keys (Name.join d.package s.name)) d.services 0).trans ?_
    exact forall₂_congr fun s _ => forall_mem_zipIdx s.methods 0
  have extensions : (∀ x ∈ (d.node scheme generate).extensions, x.IsOpen ∧ x.Resolves r) ↔
      ∀ x ∈ d.extensions, x.Denotes keys d.package := by
    simp only [node, List.forall_mem_map, Source.fieldNode_linkable_iff h]
    exact forall_mem_zipIdx d.extensions 0
  rw [File.linkable_iff, messages, services, extensions]
  simp only [allFields, List.forall_mem_append, List.forall_mem_flatMap, List.forall_mem_map, h]
  exact and_congr Iff.rfl (by tauto)

end Fresh

/-! ## Schemas -/

namespace Schema

variable (scheme : ImportScheme)

/-- What becomes of a schema when all its files are linked. -/
def linked (s : Schema) : Schema := { s with files := s.files.map (File.linked s.registry) }

/-- The symbols of files, in the order of registration. -/
def symbols (files : List FileDescriptor) : List Symbol :=
  files.flatMap fun d => d.symbols (d.source scheme).origin

/-- The schema of files that are declared and not linked yet. -/
def declared (files : List FileDescriptor) (wanted : List String) : Schema where
  registry := (⟨[]⟩ : Registry Symbol).extend (symbols scheme files)
  files := files.map fun d => d.node scheme (wanted.contains d.name)

theorem map_key_symbols (files : List FileDescriptor) :
    (symbols scheme files).map Symbol.key = files.flatMap FileDescriptor.keys := by
  rw [symbols, List.map_flatMap]
  exact congrArg files.flatMap (funext fun d => FileDescriptor.map_key_symbols rfl rfl)

theorem nodup_key_symbols {files : List FileDescriptor}
    (h : (files.flatMap FileDescriptor.keys).Nodup) :
    ((symbols scheme files).map Symbol.key).Nodup := by
  rwa [map_key_symbols]

theorem admits_symbols_iff {files : List FileDescriptor} :
    (⟨[]⟩ : Registry Symbol).Admits (symbols scheme files) ↔
      (files.flatMap FileDescriptor.keys).Nodup := by
  rw [Registry.nil_admits_iff, map_key_symbols]

theorem isSome_lookup_declared_iff (files : List FileDescriptor) (wanted : List String)
    (kind : DeclKind) (key : String) :
    ((declared scheme files wanted).registry.lookup kind key).isSome ↔
      (kind, key) ∈ files.flatMap FileDescriptor.keys := by
  rw [← map_key_symbols scheme]
  exact Registry.isSome_lookup_iff

/-! ### The passes -/

theorem declare_yields (generate : Bool) (d : FileDescriptor) (s : Schema) :
    Yields (declare scheme generate d) s
      (d.Sound ∧ s.registry.Admits (d.symbols (d.source scheme).origin))
      ⟨s.registry.extend (d.symbols (d.source scheme).origin),
        s.files ++ [d.node scheme generate]⟩ := by
  intro t
  have h := d.declare_produces scheme generate s.files s.registry
  unfold declare
  cases hd : d.declare scheme generate (s.files, s.registry) with
  | ok u t' =>
    obtain ⟨hP, rfl⟩ := (h t').mp hd
    simp [hP, eq_comm]
  | error e t' =>
    have hP : ¬(d.Sound ∧ s.registry.Admits (d.symbols (d.source scheme).origin)) := fun hP => by
      simpa [hd] using (h _).mpr ⟨hP, rfl⟩
    simp [hP]

theorem declareEach_yields (generate : FileDescriptor → Bool) :
    ∀ (files : List FileDescriptor) (s : Schema),
    Yields (files.forM fun d => declare scheme (generate d) d) s
      ((∀ d ∈ files, d.Sound) ∧ s.registry.Admits (symbols scheme files))
      ⟨s.registry.extend (symbols scheme files),
        s.files ++ files.map fun d => d.node scheme (generate d)⟩
  | [], s => Yields.pure.congr (by simp [symbols]) (by simp [symbols])
  | d :: files, s => by
    refine ((declare_yields scheme _ d s).seq (declareEach_yields generate files _)).congr ?_ ?_
    · simp only [symbols, List.flatMap_cons, Registry.admits_append, List.forall_mem_cons]
      tauto
    · simp [symbols, Registry.extend_append]

theorem declareAll_yields (wanted : List String) (files : List FileDescriptor) (s : Schema) :
    Yields (files.forM fun d => declare scheme (wanted.contains d.name) d) s
      ((∀ d ∈ files, d.Sound) ∧ s.registry.Admits (symbols scheme files))
      ⟨s.registry.extend (symbols scheme files),
        s.files ++ files.map fun d => d.node scheme (wanted.contains d.name)⟩ :=
  declareEach_yields scheme (fun d => wanted.contains d.name) files s

/-- Links those files of a schema that are wanted. -/
abbrev linkWanted (wanted : File → Bool) (s : Schema) : EStateM.Result Error Schema Unit :=
  Link.within (fun s : Schema => s.files) (fun fs s => { s with files := fs })
    (Link.each wanted (File.link s.registry)) s

theorem linkAll_eq (s : Schema) : linkAll s = linkWanted (fun _ => true) s := by
  unfold linkAll linkWanted Link.within
  cases Link.each (fun _ => true) (File.link s.registry) s.files <;> rfl

theorem linkFile_eq {s : Schema} {name : String} {t : Symbol}
    (h : s.registry.lookup .file name = some t) :
    linkFile name s = linkWanted (fun f => f.name == t.fullName) s := by
  unfold linkFile linkWanted Link.within
  simp only [h]
  cases Link.each (fun f => f.name == t.fullName) (File.link s.registry) s.files <;> rfl

/-- A pass over the files of a schema, of which some are wanted. -/
theorem linkWanted_yields (wanted : File → Bool) (s : Schema) :
    Yields (linkWanted wanted) s (∀ f ∈ s.files, wanted f → f.Linkable s.registry)
      { s with files := s.files.map fun f => if wanted f then f.linked s.registry else f } :=
  fun s' =>
    Link.yields_within _ _ (Link.yields_each wanted (File.link_yields s.registry) s.files) s'

theorem linkAll_yields (s : Schema) :
    Yields linkAll s (∀ f ∈ s.files, f.Linkable s.registry) s.linked := by
  intro s'
  rw [linkAll_eq]
  exact (linkWanted_yields (fun _ => true) s).congr (by simp) (by simp [linked]) s'

theorem checkWanted_yields (wanted : List String) (s t : Schema) :
    Yields (wanted.forM fun name => if (t.registry.lookup .file name).isSome then pure ()
        else throw (.unknownFileToGenerate name) : EStateM Error Schema Unit) s
      (∀ n ∈ wanted, (t.registry.lookup .file n).isSome) s := by
  have step (n : String) (s : Schema) : Yields (if (t.registry.lookup .file n).isSome then pure ()
      else throw (.unknownFileToGenerate n) : EStateM Error Schema Unit) s
      (t.registry.lookup .file n).isSome s := by
    by_cases h : (t.registry.lookup .file n).isSome
    · simpa only [h, if_true] using Yields.pure
    · intro s'
      simp [h, Yields.throw_ne_ok]
  refine (Yields.forM step wanted s).congr Iff.rfl ?_
  induction wanted with
  | nil => rfl
  | cons n wanted ih => exact ih

/-- All files of a schema, once they are declared, can be linked exactly if what they refer to is
declared by one of them. -/
theorem declared_linkable_iff {files : List FileDescriptor} {wanted : List String} :
    (∀ f ∈ (declared scheme files wanted).files,
      f.Linkable (declared scheme files wanted).registry) ↔
      ∀ d ∈ files, (∀ n ∈ d.dependencies, n ∈ files.map (·.name)) ∧
        (∀ f ∈ d.allFields, f.2.Denotes (files.flatMap FileDescriptor.keys) f.1) ∧
        ∀ m ∈ d.allMethods, m.2.Denotes (files.flatMap FileDescriptor.keys) m.1 := by
  have lookup := isSome_lookup_declared_iff scheme files wanted
  refine List.forall_mem_map.trans (forall₂_congr fun d _ => ?_)
  rw [d.node_linkable_iff lookup]
  simp only [FileDescriptor.file_mem_flatMap_keys_iff]

/-- Whether files are coherent can be told from their nodes. -/
theorem coherent_iff_linkable {files : List FileDescriptor} {wanted : List String} :
    Coherent files wanted ↔ ((∀ d ∈ files, d.Sound) ∧ (files.flatMap FileDescriptor.keys).Nodup) ∧
      (∀ f ∈ (declared scheme files wanted).files,
        f.Linkable (declared scheme files wanted).registry) ∧
      ∀ n ∈ wanted, n ∈ files.map (·.name) := by
  rw [declared_linkable_iff]
  constructor
  · rintro ⟨sound, distinct, dependencies, fields, methods, hw⟩
    exact ⟨⟨sound, distinct⟩, fun d hd => ⟨dependencies d hd, fields d hd, methods d hd⟩, hw⟩
  · rintro ⟨⟨sound, distinct⟩, links, hw⟩
    exact ⟨sound, distinct, fun d hd => (links d hd).1, fun d hd => (links d hd).2.1,
      fun d hd => (links d hd).2.2, hw⟩

/-- Files make a schema exactly if they are coherent, and this is the schema that they make. -/
theorem ofFiles_eq_ok_iff {files : List FileDescriptor} {wanted : List String} {s : Schema} :
    ofFiles scheme files wanted = .ok s ↔
      Coherent files wanted ∧ s = (declared scheme files wanted).linked := by
  have isFile (n : String) : ((declared scheme files wanted).registry.lookup .file n).isSome ↔
      n ∈ files.map (·.name) := by
    rw [isSome_lookup_declared_iff, FileDescriptor.file_mem_flatMap_keys_iff]
  have h : Yields (assemble scheme files wanted) {} (Coherent files wanted)
      (declared scheme files wanted).linked := by
    refine ((declareAll_yields scheme wanted files {}).seq ((linkAll_yields _).seq
      (Yields.get (checkWanted_yields wanted _ _)))).congr ?_ rfl
    rw [coherent_iff_linkable scheme, ← admits_symbols_iff scheme]
    exact and_congr_right fun _ => and_congr_right fun _ => forall₂_congr fun n _ => isFile n
  unfold ofFiles
  cases ha : assemble scheme files wanted {} with
  | ok u t =>
    obtain ⟨hc, rfl⟩ := (h t).mp ha
    simp [hc, eq_comm]
  | error e t =>
    have hc : ¬Coherent files wanted := fun hc => by simpa [ha] using (h _).mpr ⟨hc, rfl⟩
    simp [hc]

/-- Files are accepted, whatever their modules are called, exactly if nothing in them is missing or
declared twice and everything that they refer to is declared by one of them.  The order of the files
and the order in which the passes meet their declarations play no part in it. -/
theorem ofFiles_succeeds_iff (files : List FileDescriptor) (wanted : List String) :
    (∃ s, ofFiles scheme files wanted = .ok s) ↔ Coherent files wanted := by
  constructor
  · rintro ⟨s, h⟩
    exact ((ofFiles_eq_ok_iff scheme).mp h).1
  · intro h
    exact ⟨_, (ofFiles_eq_ok_iff scheme).mpr ⟨h, rfl⟩⟩

end Schema

end Protolink
