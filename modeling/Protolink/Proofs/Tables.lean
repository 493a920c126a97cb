import Protolink.Proofs.Becoming
import Protolink.Proofs.Places
import Protolink.Proofs.Resolution
import Protolink.Schema.History

/-!
# The tables of the registry

When files are declared, each table of the registry lists what they declare of one kind, file by
file and in the order in which `Places` goes through a file, and an entry leads to the node that is
made of its declaration.  Linking adds nothing to the tables, and it leaves the nodes as they are
but for what it follows.  Tables are therefore read off the schema in which nothing is followed
yet, `Schema.unlinked`, which is the same before and after linking.
-/

namespace Protolink

/-! ## The nodes that are made are unlinked -/

theorem MessageBody.unlinked_eq_self {b : MessageBody} (hf : ∀ f ∈ b.fields, f.unlinked = f)
    (hx : ∀ x ∈ b.extensions, x.unlinked = x) (hh : b.hidesEntries = false) : b.unlinked = b := by
  have fields : b.fields.map Field.unlinked = b.fields :=
    (List.map_congr_left hf).trans (List.map_id _)
  have extensions : b.extensions.map Field.unlinked = b.extensions :=
    (List.map_congr_left hx).trans (List.map_id _)
  rw [unlinked, fields, extensions, ← hh]

namespace Source

variable (src : Source)

theorem unlinked_fieldNode (parent : Option String) (oneof : Option Nat) (path : List Int)
    (d : FieldDescriptor) :
    (src.fieldNode parent oneof path d).unlinked = src.fieldNode parent oneof path d := by
  simp only [Field.unlinked, fieldNode]

theorem unlinked_bodyNode (parent : Option String) (path : List Int) (d : MessageDecl) :
    (src.bodyNode parent path d).unlinked = src.bodyNode parent path d := by
  apply MessageBody.unlinked_eq_self
  · rw [bodyNode_fields, List.forall_mem_map]
    intro f _
    exact src.unlinked_fieldNode _ _ _ _
  · rw [bodyNode_extensions, List.forall_mem_map]
    intro x _
    exact src.unlinked_fieldNode _ _ _ _
  · exact src.bodyNode_hidesEntries parent path d

theorem unlinked_messageNode (parent : Option String) (path : List Int) (d : MessageDescriptor) :
    (src.messageNode parent path d).unlinked = src.messageNode parent path d := by
  apply Message.map_eq_self
  refine (forall_mem_all_messageNode (P := fun b => b.unlinked = b) (Q := fun _ => True) ?_
    parent path d).mpr ?_
  · intro parent path d
    exact iff_true_intro (src.unlinked_bodyNode parent path d)
  · intro p _
    trivial

theorem unlinked_serviceNode (path : List Int) (d : ServiceDescriptor) :
    (src.serviceNode path d).unlinked = src.serviceNode path d := by
  rw [Service.unlinked, serviceNode, List.map_map]
  rfl

end Source

theorem FileDescriptor.unlinked_node (d : FileDescriptor) (scheme : ImportScheme)
    (generate : Bool) : (d.node scheme generate).unlinked = d.node scheme generate := by
  simp only [File.unlinked, node, List.map_map, Function.comp_def, Source.unlinked_messageNode,
    Source.unlinked_serviceNode, Source.unlinked_fieldNode, blank]

/-! ## Looking up what is unlinked -/

namespace File

variable (f : File)

theorem allMessages_unlinked : f.unlinked.allMessages = f.allMessages.map Message.unlinked :=
  Message.allOf_map MessageBody.unlinked f.ownMessages

theorem allEnums_unlinked : f.unlinked.allEnums = f.allEnums := by
  rw [allEnums, allMessages_unlinked, List.flatMap_map]
  simp only [Message.unlinked, Message.toMessageBody_map]
  rfl

theorem allExtensions_unlinked :
    f.unlinked.allExtensions = f.allExtensions.map Field.unlinked := by
  rw [allExtensions, allMessages_unlinked, List.flatMap_map, allExtensions, List.map_append,
    List.map_flatMap]
  simp only [Message.unlinked, Message.toMessageBody_map]
  rfl

end File

/-- One kind of the nodes in a file: those that a file holds, their symbols, and what they are
before they are linked. -/
structure Nodes (β : Type) where
  kind : DeclKind
  nodes : File → List β
  symbol : β → Symbol
  unlinked : β → β
  kind_symbol : ∀ b, (symbol b).kind = kind
  sublist : ∀ f, ((nodes f).map symbol).Sublist f.symbols
  symbol_unlinked : ∀ b, symbol (unlinked b) = symbol b
  nodes_unlinked : ∀ f, nodes f.unlinked = (nodes f).map unlinked

namespace Nodes

def files : Nodes File where
  kind := .file
  nodes f := [f]
  symbol := File.symbol
  unlinked := File.unlinked
  kind_symbol _ := rfl
  sublist f := by simp [File.symbols]
  symbol_unlinked _ := rfl
  nodes_unlinked _ := rfl

def messages : Nodes Message where
  kind := .message
  nodes := File.allMessages
  symbol m := m.symbol
  unlinked := Message.unlinked
  kind_symbol _ := rfl
  sublist _ := .cons _ (List.sublist_append_of_sublist_left
    (List.sublist_append_of_sublist_left (List.sublist_append_left _ _)))
  symbol_unlinked m := by
    rw [Message.unlinked, Message.toMessageBody_map]
    rfl
  nodes_unlinked := File.allMessages_unlinked

def enums : Nodes EnumType where
  kind := .enum
  nodes := File.allEnums
  symbol := EnumType.symbol
  unlinked e := e
  kind_symbol _ := rfl
  sublist _ := .cons _ (List.sublist_append_of_sublist_left
    (List.sublist_append_of_sublist_left (List.sublist_append_right _ _)))
  symbol_unlinked _ := rfl
  nodes_unlinked f := by rw [File.allEnums_unlinked, List.map_id']

def services : Nodes Service where
  kind := .service
  nodes := File.ownServices
  symbol := Service.symbol
  unlinked := Service.unlinked
  kind_symbol _ := rfl
  sublist _ := .cons _ (List.sublist_append_of_sublist_left (List.sublist_append_right _ _))
  symbol_unlinked _ := rfl
  nodes_unlinked _ := rfl

def extensions : Nodes Field where
  kind := .extension
  nodes := File.allExtensions
  symbol := Field.symbol
  unlinked := Field.unlinked
  kind_symbol _ := rfl
  sublist _ := .cons _ (List.sublist_append_right _ _)
  symbol_unlinked _ := rfl
  nodes_unlinked := File.allExtensions_unlinked

end Nodes

/-! ## Tables -/

/-- The keys of a table with what is registered under them, in the order of registration. -/
def Registry.table {α : Type} (r : Registry α) (kind : DeclKind) : List (String × α) :=
  (r.journal.filter (·.kind == kind)).map fun e => (e.key, e.value)

theorem Registry.table_extend (xs : List Symbol) (kind : DeclKind) :
    ((⟨[]⟩ : Registry Symbol).extend xs).table kind =
      (xs.filter (·.kind == kind)).map fun t => (t.fullName, t) := by
  rw [table, extend, List.nil_append, List.filter_map, List.map_map]
  rfl

namespace Schema

/-- The schema with all references open. -/
def unlinked (s : Schema) : Schema := { s with files := s.files.map File.unlinked }

/-- An entry of a table belongs to a declaration: its key is the full name of the declaration, and
this name leads to the node with the symbol in the entry, which is the node that was made of the
declaration and may have been linked since. -/
structure EntryOf {β : Type} (find : String → Option β) (symbol : β → Symbol) (unlinked : β → β)
    (fullName : String) (node : β) (e : String × Symbol) : Prop where
  key : e.1 = fullName
  value : ∃ n, find fullName = some n ∧ symbol n = e.2 ∧ unlinked n = node

/-- What several files declare, each declaration with its file. -/
def declarations {α : Type} (of : FileDescriptor → List α) (files : List FileDescriptor) :
    List (FileDescriptor × α) :=
  files.flatMap fun d => (of d).map (d, ·)

variable (scheme : ImportScheme) (generate : FileDescriptor → Bool)

/-- The tables of a schema hold exactly what files declare, in the order in which they declare it,
and lead to the nodes of these declarations; no two entries of a table have the same key. -/
structure Tabulates (files : List FileDescriptor) (s : Schema) : Prop where
  fileTable : List.Forall₂
    (fun d => EntryOf s.file? File.symbol File.unlinked d.name (d.node scheme (generate d)))
    files (s.registry.table .file)
  messageTable : List.Forall₂
    (fun p => EntryOf s.message? (·.symbol) Message.unlinked
      (p.2.fullName p.1.package (·.name)) ((p.1.source scheme).messageAt p.2))
    (declarations (·.placedMessages) files) (s.registry.table .message)
  enumTable : List.Forall₂
    (fun p => EntryOf s.enum? (·.symbol) id
      (p.2.fullName p.1.package (·.name)) ((p.1.source scheme).enumAt p.2))
    (declarations (·.placedEnums) files) (s.registry.table .enum)
  serviceTable : List.Forall₂
    (fun p => EntryOf s.service? (·.symbol) Service.unlinked
      (p.2.fullName p.1.package (·.name)) ((p.1.source scheme).serviceAt p.2))
    (declarations (·.placedServices) files) (s.registry.table .service)
  extensionTable : List.Forall₂
    (fun p => EntryOf s.extension? (·.symbol) Field.unlinked
      (p.2.fullName p.1.package (·.name)) ((p.1.source scheme).extensionAt p.2))
    (declarations (·.placedExtensions) files) (s.registry.table .extension)
  distinct : (s.registry.journal.map fun e => (e.kind, e.key)).Nodup

/-- Files that were declared and not linked. -/
def made (files : List FileDescriptor) : Schema where
  registry := (⟨[]⟩ : Registry Symbol).extend (symbols scheme files)
  files := files.map fun d => d.node scheme (generate d)

variable {scheme generate} {files : List FileDescriptor} {s : Schema}

/-- The name of a node leads to this node. -/
theorem Faithful.find?_node (hs : s.Faithful) {β : Type} (N : Nodes β) {f : File}
    (hf : f ∈ s.files) {b : β} (hb : b ∈ N.nodes f) :
    (s.files.flatMap N.nodes).find?
      (fun c => (N.symbol c).fullName == (N.symbol b).fullName) = some b :=
  hs.find?_eq_some N.nodes N.symbol N.kind_symbol N.sublist hf hb

/-- A name that a node has when it is made leads to this node, also when it was linked since. -/
theorem exists_node {β : Type} (N : Nodes β) (hs : s.unlinked.Faithful) {f : File}
    (hf : f ∈ s.unlinked.files) {b : β} (hb : b ∈ N.nodes f) :
    ∃ n, (s.files.flatMap N.nodes).find?
        (fun c => (N.symbol c).fullName == (N.symbol b).fullName) = some n ∧
      N.symbol n = N.symbol b ∧ N.unlinked n = b := by
  have found := hs.find?_node N hf hb
  have nodes : s.unlinked.files.flatMap N.nodes = (s.files.flatMap N.nodes).map N.unlinked := by
    rw [unlinked, List.flatMap_map, List.map_flatMap]
    exact List.flatMap_congr fun f _ => N.nodes_unlinked f
  rw [nodes, List.find?_map, Option.map_eq_some_iff] at found
  obtain ⟨n, hn, rfl⟩ := found
  refine ⟨n, ?_, (N.symbol_unlinked n).symm, rfl⟩
  simpa only [Function.comp_def, N.symbol_unlinked] using hn

/-- The table of a kind lists the declarations of this kind. -/
theorem table_lists (hs : s.unlinked = made scheme generate files)
    (distinct : (files.flatMap FileDescriptor.keys).Nodup) {α β : Type} (N : Nodes β)
    (of : FileDescriptor → List α) (symbol : FileDescriptor → α → Symbol)
    (node : FileDescriptor → α → β)
    (hsymbols : ∀ d, (d.symbols (d.source scheme).origin).filter (·.kind == N.kind) =
      (of d).map (symbol d))
    (hnodes : ∀ d, ∀ a ∈ of d, N.symbol (node d a) = symbol d a ∧
      node d a ∈ N.nodes (d.node scheme (generate d))) :
    List.Forall₂
      (fun p => EntryOf (fun name => (s.files.flatMap N.nodes).find? fun c =>
          (N.symbol c).fullName == name) N.symbol N.unlinked
        (symbol p.1 p.2).fullName (node p.1 p.2))
      (declarations of files) (s.registry.table N.kind) := by
  have faithful : s.unlinked.Faithful := by
    rw [hs]
    exact faithful_of_symbols scheme distinct _ (fun d => d.symbols_node scheme (generate d))
      fun _ => rfl
  have registry : s.registry = (⟨[]⟩ : Registry Symbol).extend (symbols scheme files) :=
    congrArg Schema.registry hs
  have table : s.registry.table N.kind = (declarations of files).map fun p =>
      ((symbol p.1 p.2).fullName, symbol p.1 p.2) := by
    rw [registry, Registry.table_extend, symbols, List.filter_flatMap, declarations,
      List.map_flatMap, List.map_flatMap]
    refine List.flatMap_congr fun d _ => ?_
    rw [hsymbols, List.map_map, List.map_map]
    rfl
  rw [table, List.forall₂_map_right_iff]
  refine List.forall₂_same.mpr fun p hp => ⟨rfl, ?_⟩
  obtain ⟨d, hd, hp⟩ := List.mem_flatMap.mp hp
  obtain ⟨a, ha, rfl⟩ := List.mem_map.mp hp
  obtain ⟨hsymbol, hnode⟩ := hnodes d a ha
  have hfile : d.node scheme (generate d) ∈ s.unlinked.files := by
    rw [hs]
    exact List.mem_map_of_mem hd
  have found := exists_node N faithful hfile hnode
  rwa [hsymbol] at found

theorem tabulates_of_unlinked (hs : s.unlinked = made scheme generate files)
    (distinct : (files.flatMap FileDescriptor.keys).Nodup) :
    Tabulates scheme generate files s := by
  constructor
  · have lists := table_lists hs distinct Nodes.files (fun d => [d])
      (fun d _ => ⟨.file, d.name, (d.source scheme).origin, none⟩)
      (fun d _ => d.node scheme (generate d)) (fun d => d.filter_file_symbols _)
      (fun d a _ => ⟨rfl, List.mem_singleton_self _⟩)
    have single : declarations (fun d => [d]) files = files.map fun d => (d, d) := by
      rw [declarations, List.map_eq_flatMap]
      rfl
    have nodes : s.files.flatMap Nodes.files.nodes = s.files := List.flatMap_singleton' _
    rw [single, List.forall₂_map_left_iff, nodes] at lists
    exact lists
  · refine table_lists hs distinct Nodes.messages _ _ (fun d => (d.source scheme).messageAt)
      (fun d => d.filter_message_symbols rfl) (fun d p hp => ⟨?_, ?_⟩)
    · exact (d.source scheme).symbol_messageAt p
    · show (d.source scheme).messageAt p ∈ (d.node scheme (generate d)).allMessages
      rw [d.allMessages_node]
      exact List.mem_map_of_mem hp
  · refine table_lists hs distinct Nodes.enums _ _ (fun d => (d.source scheme).enumAt)
      (fun d => d.filter_enum_symbols rfl) (fun d p hp => ⟨rfl, ?_⟩)
    exact (d.allEnums_node scheme (generate d)).mem_iff.mpr (List.mem_map_of_mem hp)
  · refine table_lists hs distinct Nodes.services _ _ (fun d => (d.source scheme).serviceAt)
      (fun d => d.filter_service_symbols _) (fun d p hp => ⟨?_, ?_⟩)
    · obtain ⟨v, -, rfl⟩ := List.mem_map.mp hp
      rfl
    · show (d.source scheme).serviceAt p ∈ (d.node scheme (generate d)).ownServices
      rw [d.ownServices_node]
      exact List.mem_map_of_mem hp
  · refine table_lists hs distinct Nodes.extensions _ _ (fun d => (d.source scheme).extensionAt)
      (fun d => d.filter_extension_symbols rfl) (fun d p hp => ⟨rfl, ?_⟩)
    exact (d.allExtensions_node scheme (generate d)).mem_iff.mpr (List.mem_map_of_mem hp)
  · have registry : s.registry = (⟨[]⟩ : Registry Symbol).extend (symbols scheme files) :=
      congrArg Schema.registry hs
    have keys := nodup_key_symbols scheme distinct
    rw [registry, Registry.extend, List.nil_append, List.map_map]
    exact keys

/-! ## Linking leaves the tables alone -/

theorem Becomes.unlinked {s t : Schema} (h : s.Becomes t) : Alike unlinked s t := by
  have files := map_alike (h.files.imp fun _ _ hf => hf.unlinked)
  rw [Alike, Schema.unlinked, Schema.unlinked, files, h.registry]

theorem linkAll_moves : Moves (Alike unlinked) linkAll := fun s => (linkAll_becomes s).unlinked

theorem linkFile_moves (name : String) : Moves (Alike unlinked) (linkFile name) :=
  fun s => (linkFile_becomes name s).unlinked

theorem after_eq_leaves (scheme : ImportScheme) (s : Schema) (step : Step) :
    after scheme s step = leaves (perform scheme step) s := by
  unfold after leaves
  cases perform scheme step s <;> rfl

/-- However often files are linked, what they were before can still be told. -/
theorem unlinked_afterAll_link (scheme : ImportScheme) (names : List String) (s : Schema) :
    (afterAll scheme s (names.map .link)).unlinked = s.unlinked := by
  induction names generalizing s with
  | nil => rfl
  | cons name names ih =>
    rw [List.map_cons, afterAll, List.foldl_cons]
    refine (ih _).trans ?_
    rw [after_eq_leaves]
    exact linkFile_moves name s

theorem unlinked_made (scheme : ImportScheme) (generate : FileDescriptor → Bool)
    (files : List FileDescriptor) :
    (made scheme generate files).unlinked = made scheme generate files := by
  rw [unlinked, made, List.map_map]
  simp only [Function.comp_def, FileDescriptor.unlinked_node]

/-- Files that are declared in an empty schema fill its tables with exactly what they declare, in
the order in which they declare it.  The tables stay so when files are linked, in turn or one by
one, as often as one likes and whether it goes through or not. -/
theorem declareEach_tabulates
    (h : (files.forM fun d => declare scheme (generate d) d) {} = .ok () s) :
    (∀ names : List String, Tabulates scheme generate files
      (afterAll scheme s (names.map .link))) ∧
    Tabulates scheme generate files (leaves linkAll s) := by
  obtain ⟨⟨-, admits⟩, hs⟩ := (declareEach_yields scheme generate files {} s).mp h
  have distinct := (admits_symbols_iff scheme).mp admits
  have hmade : s.unlinked = made scheme generate files := by
    rw [hs]
    exact unlinked_made scheme generate files
  refine ⟨fun names => tabulates_of_unlinked ?_ distinct, tabulates_of_unlinked ?_ distinct⟩
  · rw [unlinked_afterAll_link, hmade]
  · rw [← hmade]
    exact linkAll_moves s

theorem declareEach_tabulates_shopFiles :
    ∃ s, (shopFiles.forM fun d => declare .bundled (d.name == "shop.proto") d) {} = .ok () s ∧
      Tabulates .bundled (fun d => d.name == "shop.proto") shopFiles
        (afterAll .bundled s [.link "shop.proto", .link "base.proto", .link "shop.proto"]) ∧
      Tabulates .bundled (fun d => d.name == "shop.proto") shopFiles (leaves linkAll s) := by
  obtain ⟨s, hs⟩ := exists_ofFiles_shopFiles
  obtain ⟨hc, -⟩ := (ofFiles_eq_ok_iff _).mp hs
  have declares := (declareEach_yields .bundled (fun d => d.name == "shop.proto") shopFiles {}
    _).mpr ⟨⟨hc.sound, (admits_symbols_iff _).mpr hc.distinct⟩, rfl⟩
  have tabulates := declareEach_tabulates declares
  exact ⟨_, declares, tabulates.1 ["shop.proto", "base.proto", "shop.proto"], tabulates.2⟩

example : (made .bundled (fun _ => true) shopFiles).registry.census = [
    (.file, ["shop.proto", "base.proto"]),
    (.message, ["shop.Order", "shop.Order.ItemsEntry", "base.Item"]),
    (.enum, ["shop.Order.State"]),
    (.service, ["shop.Shop"]),
    (.extension, ["base.note"])] := by decide +kernel

end Schema

end Protolink
