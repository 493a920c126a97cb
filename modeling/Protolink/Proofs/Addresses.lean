import Mathlib.Data.List.Forall2
import Protolink.Proofs.Ownership

/-!
# Where declarations stand in their file

The path of a location is read from the file descriptor on: the number of a field of the descriptor,
a place in the list in that field, and so on.  `Descriptor.follow` reads paths in this way, with
the field numbers of the descriptor schema, which are not those of the same declarations in other
descriptors: extensions are 7 in a file and 6 in a message, enums are 5 and 4.

What a file declares and what its node holds are listed in the order of the paths,
`FileDescriptor.declarations` and `File.inventory`.  The lists correspond element by element: the
path of each node leads to the descriptor that the node was made from.  `Covers` says this of a
part of a file, and there is one rule for each way in which parts are put together.

Main statement: `Schema.declare_addressed`.
-/

namespace Protolink

/-! ## Following a path -/

/-- A descriptor of any kind. -/
inductive Descriptor
  | file (d : FileDescriptor)
  | message (d : MessageDescriptor)
  | field (d : FieldDescriptor)
  | oneof (d : OneofDescriptor)
  | enum (d : EnumDescriptor)
  | value (d : EnumValueDescriptor)
  | service (d : ServiceDescriptor)
  | method (d : MethodDescriptor)

namespace Descriptor

/-- The descriptors in the field of a descriptor that has the number. -/
def children : Descriptor → Int → List Descriptor
  | .file d, 4 => d.messages.map message
  | .file d, 5 => d.enums.map enum
  | .file d, 6 => d.services.map service
  | .file d, 7 => d.extensions.map field
  | .message d, 2 => d.fields.map field
  | .message d, 3 => d.nested.map message
  | .message d, 4 => d.enums.map enum
  | .message d, 6 => d.extensions.map field
  | .message d, 8 => d.oneofs.map oneof
  | .enum d, 2 => d.values.map value
  | .service d, 2 => d.methods.map method
  | _, _ => []

/-- The descriptor that a path leads to. -/
def follow : Descriptor → List Int → Option Descriptor
  | d, [] => some d
  | _, [_] => none
  | d, number :: i :: path =>
    if 0 ≤ i then
      match (d.children number)[i.toNat]? with
      | some c => c.follow path
      | none => none
    else none

theorem follow_append {root d : Descriptor} {path : List Int} (h : root.follow path = some d)
    (rest : List Int) : root.follow (path ++ rest) = d.follow rest := by
  induction root, path using follow.induct with
  | case1 root =>
    obtain rfl := Option.some.inj h
    rfl
  | case2 => exact absurd h nofun
  | case3 root number i path hi c hc ih =>
    simp only [follow, hi, if_true, hc] at h
    simp only [List.cons_append, follow, hi, if_true, hc]
    exact ih h
  | case4 root number i path hi hc =>
    simp only [follow, hi, if_true, hc] at h
    exact absurd h nofun
  | case5 root number i path hi =>
    simp only [follow, hi, if_false] at h
    exact absurd h nofun

/-- One more step of a path. -/
theorem follow_concat {root d : Descriptor} {path : List Int} (h : root.follow path = some d)
    (number : Int) {i : Nat} {c : Descriptor} (hc : (d.children number)[i]? = some c) :
    root.follow (path ++ [number, (i : Int)]) = some c := by
  rw [follow_append h]
  simp only [follow, Int.natCast_nonneg, if_true, Int.toNat_natCast, hc]

end Descriptor

/-! ## What is declared and what is built -/

def EnumDescriptor.declarations (d : EnumDescriptor) : List Descriptor :=
  .enum d :: d.values.map .value

def ServiceDescriptor.declarations (d : ServiceDescriptor) : List Descriptor :=
  .service d :: d.methods.map .method

namespace MessageDescriptor

mutual

/-- What a message declares, itself included, by increasing paths. -/
def declarations : MessageDescriptor → List Descriptor
  | ⟨d, nested⟩ =>
    .message ⟨d, nested⟩ :: (d.fields.map .field ++ (declarationsOf nested
      ++ (d.enums.flatMap EnumDescriptor.declarations
        ++ (d.extensions.map .field ++ d.oneofs.map .oneof))))

def declarationsOf : List MessageDescriptor → List Descriptor
  | [] => []
  | d :: ds => d.declarations ++ declarationsOf ds

end

end MessageDescriptor

/-- A file and what it declares at any depth, by increasing paths. -/
def FileDescriptor.declarations (d : FileDescriptor) : List Descriptor :=
  .file d :: (d.messages.flatMap MessageDescriptor.declarations
    ++ (d.enums.flatMap EnumDescriptor.declarations
      ++ (d.services.flatMap ServiceDescriptor.declarations ++ d.extensions.map .field)))

/-- A node of any kind. -/
inductive Node
  | file (f : File)
  | message (m : Message)
  | field (f : Field)
  | oneof (o : Oneof)
  | enum (e : EnumType)
  | value (v : EnumValue)
  | service (s : Service)
  | method (m : Method)

namespace Node

def location : Node → Location
  | .file f => f.location
  | .message m => m.location
  | .field f => f.location
  | .oneof o => o.location
  | .enum e => e.location
  | .value v => v.location
  | .service s => s.location
  | .method m => m.location

abbrev path (n : Node) : List Int := n.location.path

end Node

def EnumType.inventory (e : EnumType) : List Node := .enum e :: e.values.map .value

def Service.inventory (s : Service) : List Node := .service s :: s.methods.map .method

namespace Message

mutual

/-- The nodes that a message holds, itself included, in the order of what is declared. -/
def inventory : Message → List Node
  | ⟨b, nested⟩ =>
    .message ⟨b, nested⟩ :: (b.fields.map .field ++ (inventoryOf nested
      ++ (b.ownEnums.flatMap EnumType.inventory
        ++ (b.extensions.map .field ++ b.oneofs.map .oneof))))

def inventoryOf : List Message → List Node
  | [] => []
  | m :: ms => m.inventory ++ inventoryOf ms

end

end Message

/-- A file and the nodes that it holds at any depth, in the order of what is declared. -/
def File.inventory (f : File) : List Node :=
  .file f :: (f.ownMessages.flatMap Message.inventory
    ++ (f.ownEnums.flatMap EnumType.inventory
      ++ (f.ownServices.flatMap Service.inventory ++ f.extensions.map .field)))

/-- The node of a descriptor.  A oneof is given its members later. -/
def Source.Builds (src : Source) : Descriptor → Node → Prop
  | .file d, .file f => ∃ scheme generate, src = d.source scheme ∧ f = d.node scheme generate
  | .message d, .message m => ∃ parent path, m = src.messageNode parent path d
  | .field d, .field f => ∃ parent oneof path, f = src.fieldNode parent oneof path d
  | .oneof d, .oneof o =>
    ∃ message path i, { o with members := [] } = src.oneofNode message path i d
  | .enum d, .enum e => ∃ parent path, e = src.enumNode parent path d
  | .value d, .value v => ∃ path i, v = src.valueNode path i d
  | .service d, .service s => ∃ path, s = src.serviceNode path d
  | .method d, .method m => ∃ service path i, m = src.methodNode service path i d
  | _, _ => False

/-- The path of a node leads to the descriptor that the node is made from, and its comments are
those at that path. -/
structure Source.Addresses (src : Source) (root d : Descriptor) (n : Node) : Prop where
  builds : src.Builds d n
  follows : root.follow n.path = some d
  located : n.location = src.locations.find n.path

theorem path_of_location {src : Source} {n : Node} {path : List Int}
    (h : n.location = src.locations.find path) : n.path = path := by
  rw [Node.path, h, CommentIndex.find]
  split <;> rfl

theorem Source.Addresses.of_location {src : Source} {root d : Descriptor} {n : Node}
    {path : List Int} (builds : src.Builds d n) (follows : root.follow path = some d)
    (h : n.location = src.locations.find path) : src.Addresses root d n := by
  rw [← path_of_location h] at follows h
  exact ⟨builds, follows, h⟩

/-- The places in a field of the descriptor that a path leads to. -/
theorem follow_children {root d : Descriptor} {path : List Int} {number : Int} {α : Type}
    {wrap : α → Descriptor} {as : List α} (h : root.follow path = some d)
    (hchildren : d.children number = as.map wrap) : ∀ a ∈ as.zipIdx,
    root.follow (path ++ [number, (a.2 : Int)]) = some (wrap a.1) := by
  intro a ha
  refine Descriptor.follow_concat h number ?_
  rw [hchildren, List.getElem?_map, List.mem_zipIdx_iff_getElem?.mp ha]
  rfl

/-! ## Parts of a file -/

variable {src : Source} {root : Descriptor} {region region' : List Int → Prop}
variable {ds ds' : List Descriptor} {ns ns' : List Node} {path : List Int} {number : Int}

/-- Descriptors and nodes that correspond, with increasing paths in some region. -/
structure Covers (src : Source) (root : Descriptor) (region : List Int → Prop)
    (ds : List Descriptor) (ns : List Node) : Prop where
  corresponds : List.Forall₂ (src.Addresses root) ds ns
  ordered : ns.Pairwise fun m n => m.path < n.path
  within : ∀ n ∈ ns, region n.path

theorem path_lt_append (path : List Int) (k : Int) (rest : List Int) :
    path < path ++ k :: rest := by
  induction path with
  | nil => exact List.nil_lt_cons k rest
  | cons i path ih => exact List.cons_lt_cons_iff.mpr (.inr ⟨rfl, ih⟩)

theorem append_lt_append {k k' : Int} (h : k < k') (path rest rest' : List Int) :
    path ++ k :: rest < path ++ k' :: rest' :=
  List.append_left_lt (List.cons_lt_cons_iff.mpr (.inl h))

/-- At a path or below it. -/
def AtOrBelow (path p : List Int) : Prop := path <+: p

/-- In one field of the descriptor at a path, from some place on. -/
def InField (path : List Int) (number : Int) (i : Nat) (p : List Int) : Prop :=
  ∃ (j : Nat) (rest : List Int), i ≤ j ∧ p = path ++ number :: (j : Int) :: rest

/-- In a field of the descriptor at a path, from some number on. -/
def FromField (path : List Int) (number : Int) (p : List Int) : Prop :=
  ∃ (k : Int) (rest : List Int), number ≤ k ∧ p = path ++ k :: rest

namespace Covers

theorem nil : Covers src root region [] [] := ⟨.nil, .nil, List.forall_mem_nil _⟩

theorem mono (h : Covers src root region ds ns) (sub : ∀ p, region p → region' p) :
    Covers src root region' ds ns :=
  ⟨h.corresponds, h.ordered, fun n hn => sub _ (h.within n hn)⟩

theorem append {left right : List Int → Prop} (h : Covers src root left ds ns)
    (h' : Covers src root right ds' ns') (lt : ∀ p q, left p → right q → p < q)
    (hl : ∀ p, left p → region p) (hr : ∀ p, right p → region p) :
    Covers src root region (ds ++ ds') (ns ++ ns') := by
  refine ⟨List.rel_append h.corresponds h'.corresponds, ?_, ?_⟩
  · refine List.pairwise_append.mpr ⟨h.ordered, h'.ordered, fun m hm n hn => ?_⟩
    exact lt _ _ (h.within m hm) (h'.within n hn)
  · exact List.forall_mem_append.mpr ⟨(h.mono hl).within, (h'.mono hr).within⟩

/-- A node before what is inside of it. -/
theorem cons {d : Descriptor} {n : Node} (hd : src.Addresses root d n) (hn : n.path = path)
    (number : Int) (h : Covers src root (FromField path number) ds ns) :
    Covers src root (AtOrBelow path) (d :: ds) (n :: ns) := by
  refine ⟨.cons hd h.corresponds, List.pairwise_cons.mpr ⟨fun m hm => ?_, h.ordered⟩, ?_⟩
  · obtain ⟨k, rest, -, hp⟩ := h.within m hm
    rw [hn, hp]
    exact path_lt_append path k rest
  · refine List.forall_mem_cons.mpr ⟨hn ▸ List.prefix_rfl, fun m hm => ?_⟩
    obtain ⟨k, rest, -, hp⟩ := h.within m hm
    rw [hp]
    exact List.prefix_append _ _

/-- A node with nothing inside. -/
theorem single {d : Descriptor} {n : Node} (hd : src.Addresses root d n) (hn : n.path = path) :
    Covers src root (AtOrBelow path) [d] [n] := cons hd hn 0 nil

/-- One place of a field before the places that follow. -/
theorem place {i : Nat} (h : Covers src root (AtOrBelow (path ++ [number, (i : Int)])) ds ns)
    (h' : Covers src root (InField path number (i + 1)) ds' ns') :
    Covers src root (InField path number i) (ds ++ ds') (ns ++ ns') := by
  refine h.append h' ?_ ?_ ?_
  · rintro p q ⟨rest, rfl⟩ ⟨j, rest', hj, rfl⟩
    rw [List.append_assoc]
    apply List.append_left_lt
    refine List.cons_lt_cons_iff.mpr (.inr ⟨rfl, List.cons_lt_cons_iff.mpr (.inl ?_)⟩)
    omega
  · rintro p ⟨rest, rfl⟩
    exact ⟨i, rest, Nat.le_refl i, by rw [List.append_assoc]; rfl⟩
  · rintro p ⟨j, rest, hj, rfl⟩
    exact ⟨j, rest, by omega, rfl⟩

/-- One field before those with greater numbers. -/
theorem field {i : Nat} {number' : Int} (h : Covers src root (InField path number i) ds ns)
    (h' : Covers src root (FromField path number') ds' ns') (lt : number < number') :
    Covers src root (FromField path number) (ds ++ ds') (ns ++ ns') := by
  refine h.append h' ?_ ?_ ?_
  · rintro p q ⟨j, rest, -, rfl⟩ ⟨k, rest', hk, rfl⟩
    exact append_lt_append (Int.lt_of_lt_of_le lt hk) _ _ _
  · rintro p ⟨j, rest, -, rfl⟩
    exact ⟨number, _, Int.le_refl number, rfl⟩
  · rintro p ⟨k, rest, hk, rfl⟩
    exact ⟨k, rest, by omega, rfl⟩

theorem lastField {i : Nat} (h : Covers src root (InField path number i) ds ns) :
    Covers src root (FromField path number) ds ns := by
  refine h.mono ?_
  rintro p ⟨j, rest, -, rfl⟩
  exact ⟨number, _, Int.le_refl number, rfl⟩

/-- The places of a field one after the other. -/
theorem places {α β : Type} {decls : α → List Descriptor} {nodes : β → List Node} {as : List α}
    {bs : List β} {i : Nat} (h : List.Forall₂ (fun a b =>
      Covers src root (AtOrBelow (path ++ [number, (a.2 : Int)])) (decls a.1) (nodes b))
      (as.zipIdx i) bs) :
    Covers src root (InField path number i) (as.flatMap decls) (bs.flatMap nodes) := by
  induction as generalizing bs i with
  | nil =>
    cases h
    exact nil
  | cons a as ih =>
    rw [List.zipIdx_cons] at h
    cases h with
    | cons ha has => exact place ha (ih has)

/-- The descriptors in a field, each with nothing inside. -/
theorem leaves {α β : Type} {wrap : α → Descriptor} {node : β → Node} {d : Descriptor}
    {as : List α} {bs : List β} (hd : root.follow path = some d)
    (hchildren : d.children number = as.map wrap)
    (h : List.Forall₂ (fun a b => src.Builds (wrap a.1) (node b) ∧
      (node b).location = src.locations.find (path ++ [number, (a.2 : Int)])) as.zipIdx bs) :
    Covers src root (InField path number 0) (as.map wrap) (bs.map node) := by
  rw [List.map_eq_flatMap, List.map_eq_flatMap]
  have follows := follow_children hd hchildren
  refine places (((List.forall₂_and_left _ _).mpr ⟨follows, h⟩).imp ?_)
  rintro a b ⟨hfollow, hbuilds, hlocation⟩
  exact single (.of_location hbuilds hfollow hlocation) (path_of_location hlocation)

/-- Nodes that are made of the descriptors in a field one by one. -/
theorem leaves_map {α β : Type} {wrap : α → Descriptor} {node : β → Node} {d : Descriptor}
    {as : List α} {g : α × Nat → β} (hd : root.follow path = some d)
    (hchildren : d.children number = as.map wrap)
    (hbuilds : ∀ a, src.Builds (wrap a.1) (node (g a)))
    (hlocation : ∀ a, (node (g a)).location =
      src.locations.find (path ++ [number, (a.2 : Int)])) :
    Covers src root (InField path number 0) (as.map wrap) ((as.zipIdx.map g).map node) := by
  refine leaves hd hchildren (List.forall₂_map_right_iff.mpr (List.forall₂_same.mpr ?_))
  intro a _
  exact ⟨hbuilds a, hlocation a⟩

end Covers

/-! ## The node of a file -/

namespace Source

variable (src) {parent : Option String}

theorem covers_enumNode {d : EnumDescriptor} (h : root.follow path = some (.enum d)) :
    Covers src root (AtOrBelow path) d.declarations (src.enumNode parent path d).inventory := by
  have values : Covers src root (InField path 2 0) (d.values.map .value)
      ((src.enumNode parent path d).values.map .value) :=
    Covers.leaves_map h rfl (fun a => ⟨path, a.2, rfl⟩) fun _ => rfl
  exact .cons (.of_location ⟨parent, path, rfl⟩ h rfl) (path_of_location rfl) 2 values.lastField

theorem covers_serviceNode {d : ServiceDescriptor} (h : root.follow path = some (.service d)) :
    Covers src root (AtOrBelow path) d.declarations (src.serviceNode path d).inventory := by
  have methods : Covers src root (InField path 2 0) (d.methods.map .method)
      ((src.serviceNode path d).methods.map .method) :=
    Covers.leaves_map h rfl (fun a => ⟨_, path, a.2, rfl⟩) fun _ => rfl
  exact .cons (.of_location ⟨path, rfl⟩ h rfl) (path_of_location rfl) 2 methods.lastField

/-- The oneofs of a message stand at the paths at which they were made. -/
theorem forall₂_oneofs (parent : Option String) (path : List Int) (d : MessageDecl) :
    List.Forall₂ (fun a o => src.Builds (.oneof a.1) (.oneof o) ∧
      (Node.oneof o).location = src.locations.find (path ++ [8, (a.2 : Int)]))
      d.oneofs.zipIdx (src.bodyNode parent path d).oneofs := by
  have made := src.map_oneofs_bodyNode (g := fun o => { o with members := [] }) (fun _ _ => rfl)
    parent path d
  have paired := List.forall₂_eq_eq_eq.symm ▸ made.symm
  rw [List.forall₂_map_left_iff, List.forall₂_map_right_iff] at paired
  refine paired.imp fun a o ho => ⟨⟨_, path, a.2, ho.symm⟩, ?_⟩
  exact (congrArg Oneof.location ho).symm

theorem location_bodyNode (parent : Option String) (path : List Int) (d : MessageDecl) :
    (src.bodyNode parent path d).location = src.locations.find path :=
  MessageBody.foldl_addField_frame (g := MessageBody.location) (fun _ _ => rfl) _ _

mutual

theorem covers_messageNode {parent : Option String} {path : List Int} : ∀ d : MessageDescriptor,
    root.follow path = some (.message d) →
    Covers src root (AtOrBelow path) d.declarations (src.messageNode parent path d).inventory
  | ⟨d, nested⟩, h => by
    have location := src.location_bodyNode parent path d
    rw [MessageDescriptor.declarations, messageNode, Message.inventory]
    refine Covers.cons (.of_location ⟨parent, path, by rw [messageNode]⟩ h location)
      (path_of_location location) 2 ?_
    have fields : Covers src root (InField path 2 0) (d.fields.map .field)
        ((src.bodyNode parent path d).fields.map .field) := by
      rw [bodyNode_fields]
      exact Covers.leaves_map h rfl (fun a => ⟨_, _, _, rfl⟩) fun _ => rfl
    have enums : Covers src root (InField path 4 0) (d.enums.flatMap EnumDescriptor.declarations)
        ((src.bodyNode parent path d).ownEnums.flatMap EnumType.inventory) := by
      refine Covers.places (List.forall₂_map_right_iff.mpr (List.forall₂_same.mpr fun e he => ?_))
      exact src.covers_enumNode (follow_children h rfl e he)
    have extensions : Covers src root (InField path 6 0) (d.extensions.map .field)
        ((src.bodyNode parent path d).extensions.map .field) := by
      rw [bodyNode_extensions]
      exact Covers.leaves_map h rfl (fun a => ⟨_, _, _, rfl⟩) fun _ => rfl
    have oneofs := Covers.leaves h rfl (src.forall₂_oneofs parent path d)
    exact fields.field ((covers_nestedNodes nested (follow_children h rfl)).field
      (enums.field (extensions.field oneofs.lastField (by decide)) (by decide)) (by decide))
        (by decide)

theorem covers_nestedNodes {message : String} {path : List Int} {i : Nat} :
    ∀ ds : List MessageDescriptor,
    (∀ a ∈ ds.zipIdx i, root.follow (path ++ [3, (a.2 : Int)]) = some (.message a.1)) →
    Covers src root (InField path 3 i) (MessageDescriptor.declarationsOf ds)
      (Message.inventoryOf (src.nestedNodes message path i ds))
  | [], _ => .nil
  | d :: ds, h => by
    rw [List.zipIdx_cons, List.forall_mem_cons] at h
    rw [MessageDescriptor.declarationsOf, nestedNodes, Message.inventoryOf]
    exact Covers.place (covers_messageNode d h.1) (covers_nestedNodes ds h.2)

end

end Source

namespace FileDescriptor

variable (d : FileDescriptor) (scheme : ImportScheme) (generate : Bool)

theorem covers_node : Covers (d.source scheme) (.file d) (AtOrBelow []) d.declarations
    (d.node scheme generate).inventory := by
  let src := d.source scheme
  have root : (Descriptor.file d).follow [] = some (.file d) := rfl
  have messages : Covers src (.file d) (InField [] 4 0)
      (d.messages.flatMap MessageDescriptor.declarations)
      ((d.node scheme generate).ownMessages.flatMap Message.inventory) := by
    refine Covers.places (List.forall₂_map_right_iff.mpr (List.forall₂_same.mpr fun m hm => ?_))
    exact src.covers_messageNode m.1 (follow_children root rfl m hm)
  have enums : Covers src (.file d) (InField [] 5 0) (d.enums.flatMap EnumDescriptor.declarations)
      ((d.node scheme generate).ownEnums.flatMap EnumType.inventory) := by
    refine Covers.places (List.forall₂_map_right_iff.mpr (List.forall₂_same.mpr fun e he => ?_))
    exact src.covers_enumNode (follow_children root rfl e he)
  have services : Covers src (.file d) (InField [] 6 0)
      (d.services.flatMap ServiceDescriptor.declarations)
      ((d.node scheme generate).ownServices.flatMap Service.inventory) := by
    refine Covers.places (List.forall₂_map_right_iff.mpr (List.forall₂_same.mpr fun s hs => ?_))
    exact src.covers_serviceNode (follow_children root rfl s hs)
  have extensions : Covers src (.file d) (InField [] 7 0) (d.extensions.map .field)
      ((d.node scheme generate).extensions.map .field) :=
    Covers.leaves_map root rfl (fun x => ⟨none, none, _, rfl⟩) fun _ => rfl
  refine .cons (.of_location ⟨scheme, generate, rfl, rfl⟩ root rfl) (path_of_location rfl) 4 ?_
  exact messages.field (enums.field (services.field extensions.lastField (by decide)) (by decide))
    (by decide)

/-- The comments of a location are those of the first commented place of the file that has its
path, or there are none. -/
inductive Documents (l : Location) : Prop
  | first {before after : List CommentDescriptor} {c : CommentDescriptor}
    (split : d.comments = before ++ c :: after) (path : c.path = l.path)
    (earlier : ∀ b ∈ before, b.path ≠ l.path)
    (comments : l.detached = c.detached ∧ l.leading = c.leading ∧ l.trailing = c.trailing)
  | none (paths : ∀ c ∈ d.comments, c.path ≠ l.path)
    (comments : l.detached = [] ∧ l.leading = "" ∧ l.trailing = "")

theorem documents_find (path : List Int) : d.Documents ((CommentIndex.ofFile d).find path) := by
  rw [CommentIndex.find]
  cases h : (CommentIndex.ofFile d).comments.find? (·.path == path) with
  | none =>
    refine .none (fun c hc heq => ?_) ⟨rfl, rfl, rfl⟩
    exact List.find?_eq_none.mp h c hc (beq_iff_eq.mpr heq)
  | some c =>
    obtain ⟨hc, before, after, split, earlier⟩ := List.find?_eq_some_iff_append.mp h
    refine .first split (beq_iff_eq.mp hc) (fun b hb heq => ?_) ⟨rfl, rfl, rfl⟩
    simpa [heq] using earlier b hb

/-- What `d` declares and what `f` holds correspond one by one: a node is made from the descriptor
that its path leads to, the paths are different and increasing, and locations are of the file and
have the comments that belong to their paths.  The file lists everything that it holds. -/
structure Addressed (f : File) : Prop where
  corresponds : List.Forall₂ (fun decl n => (d.source scheme).Builds decl n ∧
    (Descriptor.file d).follow n.path = some decl) d.declarations f.inventory
  increasing : f.inventory.Pairwise fun m n => m.path < n.path
  file : ∀ n ∈ f.inventory, n.location.file = d.name
  comments : ∀ n ∈ f.inventory, d.Documents n.location
  listed : f.messages = f.ownMessages ∧ f.enums = f.ownEnums ∧ f.services = f.ownServices ∧
    ∀ m ∈ f.allMessages, m.messages = m.nested ∧ m.enums = m.ownEnums

theorem addressed_node : d.Addressed scheme (d.node scheme generate) := by
  have covers := d.covers_node scheme generate
  have located : ∀ n ∈ (d.node scheme generate).inventory,
      n.location = (CommentIndex.ofFile d).find n.path :=
    forall_mem_right_of_forall₂ covers.corresponds fun _ _ h => h.located
  constructor
  · exact covers.corresponds.imp fun _ _ h => ⟨h.builds, h.follows⟩
  · exact covers.ordered
  · intro n hn
    rw [located n hn, CommentIndex.find]
    split <;> rfl
  · intro n hn
    rw [located n hn]
    exact d.documents_find n.path
  · have rooted := d.rooted_node scheme generate
    have fresh := d.fresh_node scheme generate
    refine ⟨rooted.messages_eq, ?_, List.filter_eq_self.mpr fresh.services, fun m hm => ⟨?_, ?_⟩⟩
    · exact List.filter_eq_self.mpr fun e he => (rooted.ownEnums e he).1
    · refine List.filter_eq_self.mpr fun n hn => ?_
      have mem := Message.mem_allOf_of_mem_nested _ m hm n hn
      exact Message.lists_of_fresh (fresh.messages_all m hm).2 (rooted.complete n mem)
    · exact List.filter_eq_self.mpr fun e he => (rooted.enums m hm e he).1

end FileDescriptor

namespace Schema

/-- A file that is declared is found again in its node: every node stands at the path of the
descriptor that it is made from. -/
theorem declare_addressed (scheme : ImportScheme) (generate : Bool) (d : FileDescriptor)
    (s t : Schema) (h : declare scheme generate d s = .ok () t) :
    ∃ f, t.files = s.files ++ [f] ∧ d.Addressed scheme f := by
  obtain ⟨-, rfl⟩ := (declare_yields scheme generate d s t).mp h
  exact ⟨d.node scheme generate, rfl, d.addressed_node scheme generate⟩

/-- A file with a declaration in each field, and two comments at one path. -/
def albumFile : FileDescriptor where
  name := "album.proto"
  messages := [
    { name := "Album"
      fields := [{ name := "title", number := 1, label := some 1, kind := some .string }]
      enums := [{ name := "Mood", values := [{ name := "CALM" }, { name := "WILD" }] }]
      extensions := [{ name := "tag", number := 2, label := some 1, kind := some .string }]
      oneofs := [{ name := "cover" }]
      nested := [{ name := "Track", oneofs := [{ name := "source" }] }] }]
  enums := [{ name := "Format" }]
  services := [{ name := "Player", methods := [{ name := "Play" }] }]
  extensions := [{ name := "mark", number := 3, label := some 1, kind := some .string }]
  comments := [
    { path := [4, 0, 4, 0, 2, 1], leading := "loud" },
    { path := [4, 0, 4, 0, 2, 1], leading := "late" }]

theorem declare_addressed_albumFile : ∃ t f, declare .standard true albumFile {} = .ok () t ∧
    t.files = [f] ∧ albumFile.Addressed .standard f := by
  have ok : (match declare .standard true albumFile {} with
      | .ok _ _ => true
      | .error _ _ => false) = true := by
    decide +kernel
  cases h : declare .standard true albumFile {} with
  | error e t =>
    rw [h] at ok
    exact absurd ok nofun
  | ok _ t =>
    obtain ⟨f, files, addressed⟩ := declare_addressed .standard true albumFile {} t h
    exact ⟨t, f, rfl, files, addressed⟩

example : (albumFile.node .standard true).inventory.map (fun n => (n.path, n.location.leading)) = [
    ([], ""), ([4, 0], ""), ([4, 0, 2, 0], ""), ([4, 0, 3, 0], ""), ([4, 0, 3, 0, 8, 0], ""),
    ([4, 0, 4, 0], ""), ([4, 0, 4, 0, 2, 0], ""), ([4, 0, 4, 0, 2, 1], "loud"), ([4, 0, 6, 0], ""),
    ([4, 0, 8, 0], ""), ([5, 0], ""), ([6, 0], ""), ([6, 0, 2, 0], ""), ([7, 0], "")] := by
  decide +kernel

end Schema

end Protolink
