import Protolink.Proofs.Nodes

/-!
# Where declarations stand

The declarations of a file, each with its place: the message around it and the path that leads to
it.  Messages come before or after what is inside them, and these two orders are the ones in which
a file is registered: messages before the messages inside them, enums and extensions after those of
the messages inside.  What is registered is `FileDescriptor.symbols`; the theorems here cut it into
the tables of the registry, and find the node of each declaration in its place.
-/

namespace Protolink

/-- A declaration in its place. -/
structure Placed (α : Type) where
  /-- The full name of the message around the declaration, if there is one. -/
  parent : Option String
  path : List Int
  decl : α

namespace Placed

variable {α : Type}

/-- The full name of a declaration, in a file of some package. -/
def fullName (package : String) (name : α → String) (p : Placed α) : String :=
  Name.join (p.parent.getD package) (name p.decl)

/-- The elements of a list, one after the other. -/
def list (parent : Option String) (path : List Int) (tag : Int) (as : List α) : List (Placed α) :=
  as.zipIdx.map fun a => ⟨parent, path ++ [tag, (a.2 : Int)], a.1⟩

end Placed

namespace MessageDescriptor

mutual

/-- A message and all messages inside it, each before those inside it. -/
def preorder (package : String) (parent : Option String) (path : List Int) :
    MessageDescriptor → List (Placed MessageDescriptor)
  | ⟨d, nested⟩ => ⟨parent, path, ⟨d, nested⟩⟩ ::
      preorderOf package (some (Name.join (parent.getD package) d.name)) path Tag.nested 0 nested

/-- The messages of a list, of which the first stands at place `i`, and all messages inside them,
each before those inside it. -/
def preorderOf (package : String) (parent : Option String) (path : List Int) (tag : Int) (i : Nat) :
    List MessageDescriptor → List (Placed MessageDescriptor)
  | [] => []
  | m :: ms => m.preorder package parent (path ++ [tag, (i : Int)])
      ++ preorderOf package parent path tag (i + 1) ms

end

mutual

/-- A message and all messages inside it, each after those inside it. -/
def postorder (package : String) (parent : Option String) (path : List Int) :
    MessageDescriptor → List (Placed MessageDescriptor)
  | ⟨d, nested⟩ =>
    postorderOf package (some (Name.join (parent.getD package) d.name)) path Tag.nested 0 nested
      ++ [⟨parent, path, ⟨d, nested⟩⟩]

/-- The messages of a list, of which the first stands at place `i`, and all messages inside them,
each after those inside it. -/
def postorderOf (package : String) (parent : Option String) (path : List Int) (tag : Int)
    (i : Nat) : List MessageDescriptor → List (Placed MessageDescriptor)
  | [] => []
  | m :: ms => m.postorder package parent (path ++ [tag, (i : Int)])
      ++ postorderOf package parent path tag (i + 1) ms

end

end MessageDescriptor

namespace FileDescriptor

variable {α : Type}

/-- All messages of a file, each before those inside it. -/
def placedMessages (d : FileDescriptor) : List (Placed MessageDescriptor) :=
  MessageDescriptor.preorderOf d.package none [] Tag.fileMessages 0 d.messages

/-- What the messages of a file declare in one of their lists, for each message after what is
declared so inside it, and then what the file itself declares. -/
def placedLast (d : FileDescriptor) (tag : Int) (own : MessageDecl → List α) (fileTag : Int)
    (top : List α) : List (Placed α) :=
  (MessageDescriptor.postorderOf d.package none [] Tag.fileMessages 0 d.messages).flatMap (fun m =>
      Placed.list (some (m.fullName d.package (·.name))) m.path tag (own m.decl.toMessageDecl))
    ++ Placed.list none [] fileTag top

def placedEnums (d : FileDescriptor) : List (Placed EnumDescriptor) :=
  d.placedLast Tag.enums (·.enums) Tag.fileEnums d.enums

def placedExtensions (d : FileDescriptor) : List (Placed FieldDescriptor) :=
  d.placedLast Tag.extensions (·.extensions) Tag.fileExtensions d.extensions

def placedServices (d : FileDescriptor) : List (Placed ServiceDescriptor) :=
  Placed.list none [] Tag.fileServices d.services

end FileDescriptor

/-! ## Symbols by kind -/

/-- The symbol of a declaration in its place. -/
def Origin.symbolAt {α : Type} (o : Origin) (kind : DeclKind) (name : α → String) (p : Placed α) :
    Symbol :=
  o.symbol kind p.parent (name p.decl)

theorem Placed.map_symbolAt_list {α : Type} (o : Origin) (kind : DeclKind) (name : α → String)
    (parent : Option String) (path : List Int) (tag : Int) (as : List α) :
    (Placed.list parent path tag as).map (o.symbolAt kind name) =
      as.map fun a => o.symbol kind parent (name a) := by
  rw [list, List.map_map]
  exact map_zipIdx_fst (fun a => o.symbol kind parent (name a)) as 0

/-- Symbols of one kind belong to one table. -/
theorem Origin.filter_map_symbol {α : Type} (o : Origin) (kind kind' : DeclKind)
    (parent : Option String) (name : α → String) (as : List α) :
    (as.map fun a => o.symbol kind' parent (name a)).filter (·.kind == kind) =
      if kind' = kind then as.map fun a => o.symbol kind' parent (name a) else [] := by
  by_cases h : kind' = kind <;> simp [List.filter_map, Function.comp_def, symbol, h]

namespace MessageDescriptor

variable (o : Origin)

mutual

/-- Of what is registered inside a message, the messages, in order. -/
theorem filter_message_innerSymbols (parent : Option String) (path : List Int) :
    ∀ m : MessageDescriptor, (m.innerSymbols o (Name.join (parent.getD o.package) m.name)).filter
      (·.kind == .message) =
        (preorderOf o.package (some (Name.join (parent.getD o.package) m.name)) path Tag.nested 0
          m.nested).map (o.symbolAt .message (·.name))
  | ⟨d, nested⟩ => by
    rw [innerSymbols, List.filter_append, filter_message_symbolsOf _ path Tag.nested 0 nested]
    simp [MessageDecl.symbols, o.filter_map_symbol]

theorem filter_message_symbolsOf (parent : Option String) (path : List Int) (tag : Int) (i : Nat) :
    ∀ ms : List MessageDescriptor, (symbolsOf o parent ms).filter (·.kind == .message) =
      (preorderOf o.package parent path tag i ms).map (o.symbolAt .message (·.name))
  | [] => rfl
  | ⟨d, nested⟩ :: ms => by
    rw [symbolsOf, List.cons_append, List.filter_cons_of_pos rfl, List.filter_append,
      filter_message_innerSymbols parent (path ++ [tag, (i : Int)]) ⟨d, nested⟩,
      filter_message_symbolsOf parent path tag (i + 1) ms, preorderOf, preorder, List.map_append,
      List.map_cons]
    rfl

end

end MessageDescriptor

/-- Of the symbols of a message's own declarations, those of a kind are the symbols of one of its
lists. -/
structure MessageDecl.Lists {α : Type} (o : Origin) (kind : DeclKind) (own : MessageDecl → List α)
    (name : α → String) : Prop where
  ne_message : kind ≠ .message
  symbols : ∀ (d : MessageDecl) (fullName : String),
    (d.symbols o fullName).filter (·.kind == kind) =
      (own d).map fun a => o.symbol kind (some fullName) (name a)

theorem MessageDecl.lists_enums (o : Origin) : Lists o .enum (·.enums) (·.name) where
  ne_message := nofun
  symbols d fullName := by
    simp [MessageDecl.symbols, o.filter_map_symbol]

theorem MessageDecl.lists_extensions (o : Origin) :
    Lists o .extension (·.extensions) (·.name) where
  ne_message := nofun
  symbols d fullName := by
    simp [MessageDecl.symbols, o.filter_map_symbol]

theorem MessageDecl.lists_nothing (o : Origin) (kind : DeclKind) (hm : kind ≠ .message)
    (he : kind ≠ .enum) (hx : kind ≠ .extension) (name : Empty → String) :
    Lists o kind (fun _ => []) name where
  ne_message := hm
  symbols d fullName := by
    simp [MessageDecl.symbols, o.filter_map_symbol, he.symm, hx.symm]

namespace MessageDescriptor

variable {o} {α : Type} {kind : DeclKind} {own : MessageDecl → List α} {name : α → String}
  (h : MessageDecl.Lists o kind own name)

include h

mutual

/-- Of what is registered at and inside a message, what messages declare in one of their lists. -/
theorem filter_own_innerSymbols (parent : Option String) (path : List Int) :
    ∀ m : MessageDescriptor, (m.innerSymbols o (Name.join (parent.getD o.package) m.name)).filter
      (·.kind == kind) = (m.postorder o.package parent path).flatMap fun q =>
        (own q.decl.toMessageDecl).map fun a =>
          o.symbol kind (some (q.fullName o.package (·.name))) (name a)
  | ⟨d, nested⟩ => by
    rw [innerSymbols, List.filter_append, filter_own_symbolsOf _ path Tag.nested 0 nested,
      h.symbols, postorder, List.flatMap_append, List.flatMap_singleton]
    rfl

theorem filter_own_symbolsOf (parent : Option String) (path : List Int) (tag : Int) (i : Nat) :
    ∀ ms : List MessageDescriptor, (symbolsOf o parent ms).filter (·.kind == kind) =
      (postorderOf o.package parent path tag i ms).flatMap fun q =>
        (own q.decl.toMessageDecl).map fun a =>
          o.symbol kind (some (q.fullName o.package (·.name))) (name a)
  | [] => rfl
  | m :: ms => by
    have other : ((o.symbol .message parent m.name).kind == kind) = false := by
      simpa [Origin.symbol] using h.ne_message.symm
    rw [symbolsOf, List.cons_append, List.filter_cons_of_neg (by simp [other]),
      List.filter_append, filter_own_innerSymbols parent (path ++ [tag, (i : Int)]) m,
      filter_own_symbolsOf parent path tag (i + 1) ms, postorderOf, List.flatMap_append]

end

end MessageDescriptor

namespace FileDescriptor

variable (d : FileDescriptor) {o : Origin} (hp : o.package = d.package)

theorem filter_file_symbols (o : Origin) :
    (d.symbols o).filter (·.kind == .file) = [⟨.file, o.name, o, none⟩] := by
  have inside := MessageDescriptor.filter_own_symbolsOf
    (MessageDecl.lists_nothing o .file nofun nofun nofun nofun) none [] 0 0 d.messages
  simp [symbols, inside, o.filter_map_symbol, List.flatMap_eq_nil_iff]

theorem filter_service_symbols (o : Origin) : (d.symbols o).filter (·.kind == .service) =
    d.placedServices.map (o.symbolAt .service (·.name)) := by
  have inside := MessageDescriptor.filter_own_symbolsOf
    (MessageDecl.lists_nothing o .service nofun nofun nofun nofun) none [] 0 0 d.messages
  rw [placedServices, Placed.map_symbolAt_list]
  simp [symbols, inside, o.filter_map_symbol, List.flatMap_eq_nil_iff]

include hp

theorem filter_message_symbols : (d.symbols o).filter (·.kind == .message) =
    d.placedMessages.map (o.symbolAt .message (·.name)) := by
  rw [placedMessages, ← hp, ← MessageDescriptor.filter_message_symbolsOf]
  simp [symbols, o.filter_map_symbol]

theorem map_symbolAt_placedLast {α : Type} {kind : DeclKind} {own : MessageDecl → List α}
    {name : α → String} (h : MessageDecl.Lists o kind own name) (tag fileTag : Int) (top : List α) :
    (d.placedLast tag own fileTag top).map (o.symbolAt kind name) =
      (MessageDescriptor.symbolsOf o none d.messages).filter (·.kind == kind)
        ++ top.map fun a => o.symbol kind none (name a) := by
  rw [placedLast, List.map_append, List.map_flatMap, Placed.map_symbolAt_list,
    MessageDescriptor.filter_own_symbolsOf h none [] Tag.fileMessages 0, hp]
  simp only [Placed.map_symbolAt_list]

theorem filter_enum_symbols : (d.symbols o).filter (·.kind == .enum) =
    d.placedEnums.map (o.symbolAt .enum (·.name)) := by
  rw [placedEnums, d.map_symbolAt_placedLast hp (MessageDecl.lists_enums o)]
  simp [symbols, o.filter_map_symbol]

theorem filter_extension_symbols : (d.symbols o).filter (·.kind == .extension) =
    d.placedExtensions.map (o.symbolAt .extension (·.name)) := by
  rw [placedExtensions, d.map_symbolAt_placedLast hp (MessageDecl.lists_extensions o)]
  simp [symbols, o.filter_map_symbol]

end FileDescriptor

/-! ## Nodes in their places -/

theorem Placed.map_list {α β : Type} (g : Placed α → β) (parent : Option String) (path : List Int)
    (tag : Int) (as : List α) : (list parent path tag as).map g =
      as.zipIdx.map fun a => g ⟨parent, path ++ [tag, (a.2 : Int)], a.1⟩ := by
  rw [list, List.map_map]
  rfl

namespace MessageDescriptor

variable (package : String)

mutual

/-- Either way of going through a message meets the same messages. -/
theorem postorder_perm_preorder (parent : Option String) (path : List Int) :
    ∀ m : MessageDescriptor,
    (m.postorder package parent path).Perm (m.preorder package parent path)
  | ⟨d, nested⟩ => by
    rw [postorder, preorder]
    refine List.perm_append_comm.trans (List.Perm.cons _ ?_)
    exact postorderOf_perm_preorderOf _ path Tag.nested 0 nested

theorem postorderOf_perm_preorderOf (parent : Option String) (path : List Int) (tag : Int)
    (i : Nat) : ∀ ms : List MessageDescriptor,
    (postorderOf package parent path tag i ms).Perm (preorderOf package parent path tag i ms)
  | [] => .refl _
  | m :: ms => (postorder_perm_preorder parent _ m).append
      (postorderOf_perm_preorderOf parent path tag (i + 1) ms)

end

end MessageDescriptor

namespace Source

variable (src : Source)

/-- The node of a message that is declared somewhere. -/
def messageAt (p : Placed MessageDescriptor) : Message := src.messageNode p.parent p.path p.decl

def enumAt (p : Placed EnumDescriptor) : EnumType := src.enumNode p.parent p.path p.decl

def extensionAt (p : Placed FieldDescriptor) : Field := src.fieldNode p.parent none p.path p.decl

def serviceAt (p : Placed ServiceDescriptor) : Service := src.serviceNode p.path p.decl

theorem symbol_messageAt (p : Placed MessageDescriptor) :
    (src.messageAt p).symbol = src.origin.symbolAt .message (·.name) p := by
  obtain ⟨parent, path, ⟨d, nested⟩⟩ := p
  rw [messageAt, messageNode]
  exact src.symbol_bodyNode parent path d

theorem nestedNodes_eq_map (message : String) (path : List Int) (i : Nat)
    (ds : List MessageDescriptor) :
    src.nestedNodes message path i ds = (ds.zipIdx i).map fun d =>
      src.messageNode (some message) (path ++ [Tag.nested, (d.2 : Int)]) d.1 := by
  induction ds generalizing i with
  | nil => rfl
  | cons d ds ih => rw [nestedNodes, ih, List.zipIdx_cons, List.map_cons]

mutual

/-- The nodes in the node of a message are those of the messages in it, each in its place. -/
theorem all_messageNode (parent : Option String) (path : List Int) : ∀ d : MessageDescriptor,
    (src.messageNode parent path d).all =
      (d.preorder src.origin.package parent path).map src.messageAt
  | ⟨d, nested⟩ => by
    rw [messageNode, Message.all, MessageDescriptor.preorder, List.map_cons, nestedNodes_eq_map,
      allOf_messageNodes _ path Tag.nested 0 nested, messageAt, messageNode, nestedNodes_eq_map]
    rfl

theorem allOf_messageNodes (parent : Option String) (path : List Int) (tag : Int) (i : Nat) :
    ∀ ds : List MessageDescriptor,
    Message.allOf ((ds.zipIdx i).map fun d =>
        src.messageNode parent (path ++ [tag, (d.2 : Int)]) d.1) =
      (MessageDescriptor.preorderOf src.origin.package parent path tag i ds).map src.messageAt
  | [] => rfl
  | d :: ds => by
    rw [List.zipIdx_cons, List.map_cons, Message.allOf, all_messageNode parent _ d,
      allOf_messageNodes parent path tag (i + 1) ds, MessageDescriptor.preorderOf, List.map_append]

end

end Source

namespace FileDescriptor

variable (d : FileDescriptor) (scheme : ImportScheme) (generate : Bool)

theorem allMessages_node : (d.node scheme generate).allMessages =
    d.placedMessages.map (d.source scheme).messageAt :=
  (d.source scheme).allOf_messageNodes none [] Tag.fileMessages 0 d.messages

theorem map_symbol_allMessages_node : (d.node scheme generate).allMessages.map (·.symbol) =
    (d.symbols (d.source scheme).origin).filter (·.kind == .message) := by
  rw [d.filter_message_symbols rfl, d.allMessages_node, List.map_map]
  exact List.map_congr_left fun p _ => (d.source scheme).symbol_messageAt p

theorem ownServices_node : (d.node scheme generate).ownServices =
    d.placedServices.map (d.source scheme).serviceAt :=
  (Placed.map_list (d.source scheme).serviceAt none [] Tag.fileServices d.services).symm

/-- What the nodes of the messages of a file hold in one of their lists, together with what the node
of the file itself holds, are the nodes of what is declared there. -/
theorem perm_placedLast {α β : Type} (own : MessageDecl → List α) (nodes : MessageBody → List β)
    (node : Placed α → β) (tag fileTag : Int) (top : List α)
    (h : ∀ (parent : Option String) (path : List Int) (m : MessageDecl),
      nodes ((d.source scheme).bodyNode parent path m) =
        (Placed.list (some (Name.join (parent.getD d.package) m.name)) path tag (own m)).map node) :
    ((Placed.list none [] fileTag top).map node ++
      (d.node scheme generate).allMessages.flatMap fun m => nodes m.toMessageBody).Perm
      ((d.placedLast tag own fileTag top).map node) := by
  have inside : ((d.node scheme generate).allMessages.flatMap fun m => nodes m.toMessageBody) =
      d.placedMessages.flatMap fun m => (Placed.list (some (m.fullName d.package (·.name))) m.path
        tag (own m.decl.toMessageDecl)).map node := by
    rw [allMessages_node, List.flatMap_map]
    refine List.flatMap_congr fun m _ => ?_
    rw [Placed.fullName, ← h]
    cases hm : m.decl
    rw [Source.messageAt, hm, Source.messageNode]
  rw [inside, placedLast, List.map_append, List.map_flatMap]
  refine List.perm_append_comm.trans (List.Perm.append_right _ ?_)
  exact (MessageDescriptor.postorderOf_perm_preorderOf d.package none [] _ 0 d.messages).symm
    |>.flatMap_right _

theorem allEnums_node : (d.node scheme generate).allEnums.Perm
    (d.placedEnums.map (d.source scheme).enumAt) := by
  have perm := d.perm_placedLast scheme generate (·.enums) (·.ownEnums) (d.source scheme).enumAt
    Tag.enums Tag.fileEnums d.enums (fun _ _ _ => ?_)
  · rwa [Placed.map_list] at perm
  · rw [Placed.map_list]
    rfl

theorem allExtensions_node : (d.node scheme generate).allExtensions.Perm
    (d.placedExtensions.map (d.source scheme).extensionAt) := by
  have perm := d.perm_placedLast scheme generate (·.extensions) (·.extensions)
    (d.source scheme).extensionAt Tag.extensions Tag.fileExtensions d.extensions (fun _ _ _ => ?_)
  · rwa [Placed.map_list] at perm
  · rw [Placed.map_list]
    rfl

end FileDescriptor

end Protolink
