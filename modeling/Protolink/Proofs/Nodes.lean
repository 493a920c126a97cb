import Mathlib.Data.List.Flatten
import Protolink.Proofs.Assembly

/-!
# Symbols and nodes

The registry of a schema that files make holds the symbols of its nodes and no others.  From this
it follows that every symbol found in the registry leads back to a node: the look-ups of a schema
find the one node that has the symbol, in the file that declares it.
-/

namespace Protolink

/-! ## The symbols of nodes -/

/-- The symbols of a message and of its own enums and extensions. -/
def MessageBody.symbols (b : MessageBody) : List Symbol :=
  b.symbol :: (b.ownEnums.map (·.symbol) ++ b.extensions.map (·.symbol))

namespace File

/-- The symbols of all nodes of a file that have one. -/
def symbols (f : File) : List Symbol :=
  f.symbol :: (f.allMessages.map (·.symbol) ++ f.allEnums.map (·.symbol)
    ++ f.ownServices.map (·.symbol) ++ f.allExtensions.map (·.symbol))

theorem symbols_perm (f : File) : f.symbols.Perm (f.symbol ::
    (f.allMessages.flatMap (·.symbols) ++ f.ownEnums.map (·.symbol) ++ f.ownServices.map (·.symbol)
      ++ f.extensions.map (·.symbol))) := by
  have messages : (f.allMessages.flatMap (·.symbols)).Perm (f.allMessages.map (·.symbol) ++
      (f.allMessages.flatMap (fun m => m.ownEnums.map (·.symbol)) ++
        f.allMessages.flatMap fun m => m.extensions.map (·.symbol))) := by
    have own := (List.flatMap_append_perm f.allMessages (fun m => m.ownEnums.map (·.symbol))
      fun m => m.extensions.map (·.symbol)).symm
    refine (List.flatMap_append_perm f.allMessages (fun m => [m.symbol]) _).symm.trans ?_
    rw [List.map_eq_flatMap]
    exact own.append_left _
  -- The enums and the extensions stand with their messages on one side and apart on the other.
  refine List.Perm.cons _ (List.perm_iff_count.mpr fun t => ?_)
  simp only [List.count_append, messages.count_eq, allEnums, allExtensions, List.map_append,
    List.map_flatMap]
  omega

end File

/-! ## Nodes that are made have the symbols that are registered -/

namespace Source

variable (src : Source)

theorem symbol_bodyNode (parent : Option String) (path : List Int) (d : MessageDecl) :
    (src.bodyNode parent path d).symbol = src.origin.symbol .message parent d.name :=
  MessageBody.foldl_addField_frame (g := MessageBody.symbol) (fun _ _ => rfl) _ _

theorem symbols_bodyNode (parent : Option String) (path : List Int) (d : MessageDecl) :
    (src.bodyNode parent path d).symbols = src.origin.symbol .message parent d.name ::
      d.symbols src.origin (Name.join (src.scope parent) d.name) := by
  have enums : (src.bodyNode parent path d).ownEnums.map (·.symbol) = d.enums.map fun e =>
      src.origin.symbol .enum (some (Name.join (src.scope parent) d.name)) e.name := by
    rw [← map_zipIdx_fst _ d.enums 0, bodyNode, List.map_map]
    rfl
  have extensions : (src.bodyNode parent path d).extensions.map (·.symbol) =
      d.extensions.map fun x =>
        src.origin.symbol .extension (some (Name.join (src.scope parent) d.name)) x.name := by
    rw [← map_zipIdx_fst _ d.extensions 0, bodyNode_extensions, List.map_map]
    rfl
  rw [MessageBody.symbols, MessageDecl.symbols, enums, extensions, symbol_bodyNode]

mutual

theorem symbols_messageNode (parent : Option String) (path : List Int) : ∀ d : MessageDescriptor,
    ((src.messageNode parent path d).all.flatMap (·.symbols)).Perm
      (src.origin.symbol .message parent d.name ::
        d.innerSymbols src.origin (Name.join (src.scope parent) d.name))
  | ⟨d, nested⟩ => by
    rw [messageNode, Message.all, List.flatMap_cons, symbols_bodyNode,
      MessageDescriptor.innerSymbols]
    refine List.Perm.cons _ (List.perm_append_comm.trans ?_)
    exact (symbols_nestedNodes _ path 0 nested).append_right _

theorem symbols_nestedNodes (message : String) (path : List Int) (i : Nat) :
    ∀ ds : List MessageDescriptor,
    ((Message.allOf (src.nestedNodes message path i ds)).flatMap (·.symbols)).Perm
      (MessageDescriptor.symbolsOf src.origin (some message) ds)
  | [] => .refl _
  | d :: ds => by
    rw [nestedNodes, Message.allOf, List.flatMap_append, MessageDescriptor.symbolsOf]
    exact (symbols_messageNode (some message) _ d).append
      (symbols_nestedNodes message path (i + 1) ds)

end

end Source

theorem FileDescriptor.map_symbol_ownEnums_node (d : FileDescriptor) (scheme : ImportScheme)
    (generate : Bool) : (d.node scheme generate).ownEnums.map (·.symbol) =
      d.enums.map fun e => (d.source scheme).origin.symbol .enum none e.name := by
  rw [← map_zipIdx_fst _ d.enums 0, node, List.map_map]
  rfl

/-- The nodes of a file have the symbols that are registered when it is declared. -/
theorem FileDescriptor.symbols_node (d : FileDescriptor) (scheme : ImportScheme)
    (generate : Bool) :
    (d.node scheme generate).symbols.Perm (d.symbols (d.source scheme).origin) := by
  let src := d.source scheme
  have messages : ((d.node scheme generate).allMessages.flatMap (·.symbols)).Perm
      (MessageDescriptor.symbolsOf src.origin none d.messages) := by
    rw [MessageDescriptor.symbolsOf_eq_flatMap, File.allMessages, Message.allOf_eq_flatMap,
      List.flatMap_assoc, node, List.flatMap_map, ← List.zipIdx_map_fst 0 d.messages,
      List.flatMap_map, List.zipIdx_map_fst]
    exact List.Perm.flatMap_left _ fun m _ => src.symbols_messageNode none _ m.1
  have services : (d.node scheme generate).ownServices.map (·.symbol) =
      d.services.map fun s => src.origin.symbol .service none s.name := by
    rw [← map_zipIdx_fst _ d.services 0, node, List.map_map]
    rfl
  have extensions : (d.node scheme generate).extensions.map (·.symbol) =
      d.extensions.map fun x => src.origin.symbol .extension none x.name := by
    rw [← map_zipIdx_fst _ d.extensions 0, node, List.map_map]
    rfl
  refine (File.symbols_perm _).trans (List.Perm.cons _ ?_)
  rw [d.map_symbol_ownEnums_node, services, extensions]
  exact ((messages.append_right _).append_right _).append_right _

/-! ## Linking keeps the symbols -/

/-- Everything in the node that is made for a file is listed. -/
theorem FileDescriptor.fresh_node (d : FileDescriptor) (scheme : ImportScheme) (generate : Bool) :
    (d.node scheme generate).Fresh := by
  constructor
  · intro m hm
    obtain ⟨p, -, rfl⟩ := List.mem_map.mp hm
    exact Source.fresh_messageNode none _ p.1
  · intro s hs
    obtain ⟨p, -, rfl⟩ := List.mem_map.mp hs
    rfl

theorem File.symbols_linked (r : Registry Symbol) {f : File} (h : f.Fresh) :
    (f.linked r).symbols = f.symbols := by
  have fields (xs : List Field) : (xs.map (Field.linked r)).map (·.symbol) = xs.map (·.symbol) :=
    List.map_map
  have messages : (f.linked r).allMessages.map (·.symbol) = f.allMessages.map (·.symbol) := by
    rw [allMessages_linked r h, List.map_map]
    exact List.map_congr_left fun m _ => by simp [MessageBody.linked, MessageBody.symbol]
  have enums : (f.linked r).allEnums.map (·.symbol) = f.allEnums.map (·.symbol) := by
    rw [allEnums, allMessages_linked r h, List.flatMap_map]
    simp only [Message.toMessageBody_mapListed]
    rfl
  have services : (f.linked r).ownServices.map (·.symbol) = f.ownServices.map (·.symbol) := by
    rw [ownServices_linked r h, List.map_map]
    rfl
  have extensions : (f.linked r).allExtensions.map (·.symbol) =
      f.allExtensions.map (·.symbol) := by
    rw [allExtensions, allMessages_linked r h, List.flatMap_map]
    simp only [Message.toMessageBody_mapListed, List.map_append, List.map_flatMap, allExtensions,
      linked, MessageBody.linked, fields]
  rw [symbols, messages, enums, services, extensions]
  rfl

/-! ## Schemas -/

namespace Schema

/-- The registry of a schema holds the symbols of its nodes, each under its own name; no two nodes
of a kind have the same full name, and all of them know which file they are in. -/
structure Faithful (s : Schema) : Prop where
  distinct : ((s.files.flatMap File.symbols).map Symbol.key).Nodup
  lookup : ∀ kind key t, s.registry.lookup kind key = some t ↔
    t ∈ s.files.flatMap File.symbols ∧ t.key = (kind, key)
  origin : ∀ f ∈ s.files, ∀ t ∈ f.symbols, t.origin = f.origin

/-- A registry that holds the symbols of files is faithful to nodes that have these symbols. -/
theorem faithful_of_symbols (scheme : ImportScheme) {files : List FileDescriptor}
    (distinct : (files.flatMap FileDescriptor.keys).Nodup) (node : FileDescriptor → File)
    (hnode : ∀ d, (node d).symbols.Perm (d.symbols (d.source scheme).origin))
    (horigin : ∀ d, (node d).origin = (d.source scheme).origin) :
    Faithful ⟨(⟨[]⟩ : Registry Symbol).extend (symbols scheme files), files.map node⟩ := by
  have perm : ((files.map node).flatMap File.symbols).Perm (symbols scheme files) := by
    rw [List.flatMap_map]
    exact List.Perm.flatMap_left _ fun d _ => hnode d
  have keys := nodup_key_symbols scheme distinct
  constructor
  · exact (perm.map _).nodup_iff.mpr keys
  · intro kind key t
    rw [perm.mem_iff]
    exact Registry.lookup_eq_some_iff keys
  · intro f hf t ht
    obtain ⟨d, -, rfl⟩ := List.mem_map.mp hf
    rw [horigin]
    exact FileDescriptor.origin_of_mem_symbols ((hnode d).mem_iff.mp ht)

/-- What files make is faithful. -/
theorem faithful_of_ofFiles {scheme : ImportScheme} {files : List FileDescriptor}
    {wanted : List String} {s : Schema} (h : ofFiles scheme files wanted = .ok s) : s.Faithful := by
  obtain ⟨hc, rfl⟩ := (ofFiles_eq_ok_iff scheme).mp h
  let r := (declared scheme files wanted).registry
  have node (d : FileDescriptor) (generate : Bool) :
      ((d.node scheme generate).linked r).symbols.Perm (d.symbols (d.source scheme).origin) := by
    rw [File.symbols_linked r (d.fresh_node scheme generate)]
    exact d.symbols_node scheme generate
  have faithful := faithful_of_symbols scheme hc.distinct
    (fun d => (d.node scheme (wanted.contains d.name)).linked r) (fun d => node d _) (fun _ => rfl)
  rwa [← Function.comp_def, ← List.map_map] at faithful

/-- A symbol leads to a node that has it, in the file that the symbol says it is from; the look-up
of the schema finds this node. -/
def Holds (s : Schema) (t : Symbol) : Prop :=
  ∃ f ∈ s.files, f.origin = t.origin ∧
    match t.kind with
    | .file => f.symbol = t ∧ s.file? t.fullName = some f
    | .message => ∃ m ∈ f.allMessages, m.symbol = t ∧ s.message? t.fullName = some m
    | .enum => ∃ e ∈ f.allEnums, e.symbol = t ∧ s.enum? t.fullName = some e
    | .service => ∃ v ∈ f.ownServices, v.symbol = t ∧ s.service? t.fullName = some v
    | .extension => ∃ x ∈ f.allExtensions, x.symbol = t ∧ s.extension? t.fullName = some x

namespace Faithful

variable {s : Schema}

/-- Among the nodes of one kind, the one with a given full name is found. -/
theorem find?_eq_some (hs : s.Faithful) {β : Type} {kind : DeclKind} (nodes : File → List β)
    (symbol : β → Symbol) (hkind : ∀ b, (symbol b).kind = kind)
    (hnodes : ∀ f, ((nodes f).map symbol).Sublist f.symbols) {f : File} (hf : f ∈ s.files) {b : β}
    (hb : b ∈ nodes f) : (s.files.flatMap nodes).find?
      (fun c => (symbol c).fullName == (symbol b).fullName) = some b := by
  have symbols : ((s.files.flatMap nodes).map symbol).Sublist (s.files.flatMap File.symbols) := by
    rw [List.map_flatMap]
    exact List.Sublist.flatMap_right _ fun f _ => hnodes f
  have keys : ((s.files.flatMap nodes).map fun c => (symbol c).key).Nodup := by
    have h := (symbols.map Symbol.key).nodup hs.distinct
    rwa [List.map_map] at h
  rw [find?_eq_some_iff_of_nodup keys (k := (symbol b).key)]
  · exact ⟨List.mem_flatMap.mpr ⟨f, hf, hb⟩, rfl⟩
  · intro c
    simp [Symbol.key, hkind]

/-- What the registry knows is registered under its own name and leads to a node. -/
theorem holds_of_lookup (hs : s.Faithful) {kind : DeclKind} {key : String} {t : Symbol}
    (h : s.registry.lookup kind key = some t) : t.key = (kind, key) ∧ s.Holds t := by
  obtain ⟨ht, hkey⟩ := (hs.lookup kind key t).mp h
  obtain ⟨f, hf, ht⟩ := List.mem_flatMap.mp ht
  refine ⟨hkey, f, hf, (hs.origin f hf t ht).symm, ?_⟩
  simp only [File.symbols, List.mem_cons, List.mem_append, List.mem_map] at ht
  obtain rfl | ((⟨m, hm, rfl⟩ | ⟨e, he, rfl⟩) | ⟨v, hv, rfl⟩) | ⟨x, hx, rfl⟩ := ht
  · have found := hs.find?_eq_some (fun f => [f]) File.symbol (fun _ => rfl)
      (fun f => by simp [File.symbols]) hf List.mem_cons_self
    rw [List.flatMap_singleton'] at found
    exact ⟨rfl, found⟩
  · refine ⟨m, hm, rfl, hs.find?_eq_some _ (fun m : Message => m.symbol) (fun _ => rfl) ?_ hf hm⟩
    exact fun f => .cons _ (List.sublist_append_of_sublist_left
      (List.sublist_append_of_sublist_left (List.sublist_append_left _ _)))
  · refine ⟨e, he, rfl, hs.find?_eq_some _ EnumType.symbol (fun _ => rfl) ?_ hf he⟩
    exact fun f => .cons _ (List.sublist_append_of_sublist_left
      (List.sublist_append_of_sublist_left (List.sublist_append_right _ _)))
  · refine ⟨v, hv, rfl, hs.find?_eq_some _ Service.symbol (fun _ => rfl) ?_ hf hv⟩
    exact fun f => .cons _ (List.sublist_append_of_sublist_left (List.sublist_append_right _ _))
  · refine ⟨x, hx, rfl, hs.find?_eq_some _ Field.symbol (fun _ => rfl) ?_ hf hx⟩
    exact fun f => .cons _ (List.sublist_append_right _ _)

end Faithful

end Schema

end Protolink
