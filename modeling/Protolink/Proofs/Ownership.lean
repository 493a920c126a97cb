import Protolink.Proofs.Tables

/-!
# What files list and what is registered

The registry of a schema holds every message and every enum that its files declare, and the files
list them at some depth.  These are two ways of going through the same declarations: a file lists
what the registry holds of it, in the same order as far as messages are concerned, and leaves out
only map entries in messages and what is inside these.  `Schema.Dropped` says this of a message by
the registry alone, without the lists.  Before files are linked they leave out nothing.
-/

namespace Protolink

/-! ## What a message lists -/

namespace Message

mutual

/-- The enums listed in a message are those of the messages listed in it. -/
theorem collectEnums_eq : ∀ m : Message, m.collectEnums = (m :: m.collect).flatMap (·.enums)
  | ⟨body, nested⟩ => by
    rw [collectEnums, collect, List.flatMap_cons, collectEnumsFrom_eq body nested]

theorem collectEnumsFrom_eq (body : MessageBody) : ∀ ms : List Message,
    collectEnumsFrom body ms = (collectFrom body ms).flatMap (·.enums)
  | [] => rfl
  | m :: ms => by
    rw [collectEnumsFrom, collectFrom, List.flatMap_append, collectEnumsFrom_eq body ms,
      collectEnums_eq m]
    cases body.lists m.toMessageBody <;> rfl

end

theorem mem_all_self (m : Message) : m ∈ m.all := by
  cases m
  rw [all]
  exact List.mem_cons_self

mutual

theorem mem_all_of_mem_nested : ∀ m : Message, ∀ n ∈ m.all, ∀ k ∈ n.nested, k ∈ m.all
  | ⟨body, nested⟩ => by
    rw [all]
    refine List.forall_mem_cons.mpr ⟨fun k hk => ?_, fun n hn k hk => ?_⟩
    · rw [allOf_eq_flatMap]
      exact List.mem_cons_of_mem _ (List.mem_flatMap_of_mem hk k.mem_all_self)
    · exact List.mem_cons_of_mem _ (mem_allOf_of_mem_nested nested n hn k hk)

theorem mem_allOf_of_mem_nested : ∀ ms : List Message,
    ∀ n ∈ allOf ms, ∀ k ∈ n.nested, k ∈ allOf ms
  | [] => List.forall_mem_nil _
  | m :: ms => by
    rw [allOf]
    refine List.forall_mem_append.mpr ⟨fun n hn k hk => ?_, fun n hn k hk => ?_⟩
    · exact List.mem_append_left _ (mem_all_of_mem_nested m n hn k hk)
    · exact List.mem_append_right _ (mem_allOf_of_mem_nested ms n hn k hk)

end

variable {hidden : String → Prop}

/-- What is hidden in a message is what is not listed, and what is inside of that. -/
def Hides (hidden : String → Prop) (m : Message) : Prop :=
  ∀ n ∈ m.all, ∀ k ∈ n.nested,
    (hidden k.fullName ↔ hidden n.fullName ∨ n.lists k.toMessageBody = false)

theorem hides_mk {body : MessageBody} {nested : List Message} :
    Hides hidden ⟨body, nested⟩ ↔ ∀ k ∈ nested, k.Hides hidden ∧
      (hidden k.fullName ↔ hidden body.fullName ∨ body.lists k.toMessageBody = false) := by
  unfold Hides
  rw [forall_mem_all_iff, allOf_eq_flatMap, List.forall_mem_flatMap, and_comm]
  exact forall₂_and.symm

mutual

/-- Everything inside a hidden message is hidden. -/
theorem hidden_of_mem_all : ∀ m : Message, m.Hides hidden → hidden m.fullName →
    ∀ n ∈ m.all, hidden n.fullName
  | ⟨body, nested⟩, h, hm => by
    refine forall_mem_all_iff.mpr ⟨hm, hidden_of_mem_allOf nested fun k hk => ?_⟩
    obtain ⟨inner, outer⟩ := hides_mk.mp h k hk
    exact ⟨inner, outer.mpr (.inl hm)⟩

theorem hidden_of_mem_allOf : ∀ ms : List Message,
    (∀ m ∈ ms, m.Hides hidden ∧ hidden m.fullName) → ∀ n ∈ allOf ms, hidden n.fullName
  | [], _ => List.forall_mem_nil _
  | m :: ms, h => by
    rw [List.forall_mem_cons] at h
    rw [allOf, List.forall_mem_append]
    exact ⟨hidden_of_mem_all m h.1.1 h.1.2, hidden_of_mem_allOf ms h.2⟩

end

/-- Where everything is listed, nothing is hidden. -/
theorem Fresh.hides {m : Message} (h : m.Fresh) : m.Hides fun _ => False := by
  intro n hn k hk
  have complete : k.isComplete = true := (h k (m.mem_all_of_mem_nested n hn k hk)).1
  simp [lists_of_fresh (h n hn).2 complete]

variable [DecidablePred hidden]

mutual

/-- Of a message that is not hidden, everything is listed but what is hidden. -/
theorem cons_collect_eq : ∀ m : Message, m.Hides hidden → ¬hidden m.fullName →
    m :: m.collect = m.all.filter fun n => ¬hidden n.fullName
  | ⟨body, nested⟩, h, hm => by
    rw [collect, all, List.filter_cons_of_pos (by simpa using hm),
      collectFrom_eq body hm nested (hides_mk.mp h)]

theorem collectFrom_eq (body : MessageBody) (hb : ¬hidden body.fullName) : ∀ ms : List Message,
    (∀ m ∈ ms, m.Hides hidden ∧
      (hidden m.fullName ↔ hidden body.fullName ∨ body.lists m.toMessageBody = false)) →
    collectFrom body ms = (allOf ms).filter fun n => ¬hidden n.fullName
  | [], _ => rfl
  | m :: ms, h => by
    rw [List.forall_mem_cons] at h
    obtain ⟨⟨inner, outer⟩, rest⟩ := h
    rw [collectFrom, allOf, List.filter_append, collectFrom_eq body hb ms rest]
    congr 1
    cases hl : body.lists m.toMessageBody with
    | true =>
      have shown : ¬hidden m.fullName := by simpa [hb, hl] using outer.not
      rw [if_pos rfl, cons_collect_eq m inner shown]
    | false =>
      have gone := hidden_of_mem_all m inner (outer.mpr (.inr hl))
      rw [if_neg Bool.false_ne_true, eq_comm, List.filter_eq_nil_iff]
      intro n hn
      simpa using gone n hn

end

theorem Fresh.cons_collect {m : Message} (h : m.Fresh) : m :: m.collect = m.all := by
  rw [cons_collect_eq m h.hides id]
  exact List.filter_eq_self.mpr fun _ _ => decide_eq_true id

end Message

/-! ## What a file lists -/

theorem flatMap_filter {α β : Type} (p : α → Bool) (g : α → List β) (as : List α) :
    (as.filter p).flatMap g = as.flatMap fun a => if p a then g a else [] := by
  induction as with
  | nil => rfl
  | cons a as ih => cases h : p a <;> simp [h, ih]

namespace File

/-- Everything in the file is read to the end and knows the message that it is in. -/
structure Rooted (f : File) : Prop where
  ownMessages : ∀ m ∈ f.ownMessages, m.parent = none
  ownEnums : ∀ e ∈ f.ownEnums, e.isComplete = true ∧ e.parent = none
  complete : ∀ m ∈ f.allMessages, m.isComplete = true
  nested : ∀ m ∈ f.allMessages, ∀ n ∈ m.nested, n.parent = some m.fullName
  enums : ∀ m ∈ f.allMessages, ∀ e ∈ m.ownEnums, e.isComplete = true ∧ e.parent = some m.fullName

theorem mem_allMessages_of_mem {f : File} {m : Message} (hm : m ∈ f.ownMessages) :
    ∀ n ∈ m.all, n ∈ f.allMessages := by
  intro n hn
  rw [allMessages, Message.allOf_eq_flatMap]
  exact List.mem_flatMap_of_mem hm hn

theorem Rooted.messages_eq {f : File} (h : f.Rooted) : f.messages = f.ownMessages := by
  refine List.filter_eq_self.mpr fun m hm => ?_
  exact h.complete m (mem_allMessages_of_mem hm m m.mem_all_self)

theorem Rooted.enums_eq {f : File} (h : f.Rooted) : f.enums = f.ownEnums :=
  List.filter_eq_self.mpr fun e he => (h.ownEnums e he).1

variable {f : File} {hidden : String → Prop} [DecidablePred hidden]

theorem collectMessages_eq (h : f.Rooted)
    (hm : ∀ m ∈ f.ownMessages, m.Hides hidden ∧ ¬hidden m.fullName) :
    f.collectMessages = f.allMessages.filter fun m => ¬hidden m.fullName := by
  rw [collectMessages, h.messages_eq, allMessages, Message.allOf_eq_flatMap, List.filter_flatMap]
  exact List.flatMap_congr fun m hmem => Message.cons_collect_eq m (hm m hmem).1 (hm m hmem).2

theorem collectEnums_eq (h : f.Rooted)
    (hm : ∀ m ∈ f.ownMessages, m.Hides hidden ∧ ¬hidden m.fullName) :
    f.collectEnums = f.allEnums.filter fun e => ∀ p ∈ e.parent, ¬hidden p := by
  have own : f.enums = f.ownEnums.filter fun e => ∀ p ∈ e.parent, ¬hidden p := by
    refine List.filter_congr fun e he => ?_
    obtain ⟨complete, parent⟩ := h.ownEnums e he
    simp [complete, parent]
  have inner : f.messages.flatMap (·.collectEnums) = f.collectMessages.flatMap (·.enums) := by
    simp only [Message.collectEnums_eq, collectMessages, List.flatMap_assoc]
  have listed (m : Message) (hmem : m ∈ f.allMessages) :
      (if ¬hidden m.fullName then m.enums else []) =
        m.ownEnums.filter fun e => ∀ p ∈ e.parent, ¬hidden p := by
    by_cases hp : hidden m.fullName
    · rw [if_neg (not_not_intro hp), eq_comm, List.filter_eq_nil_iff]
      intro e he
      simpa [(h.enums m hmem e he).2] using hp
    · rw [if_pos hp]
      refine List.filter_congr fun e he => ?_
      obtain ⟨complete, parent⟩ := h.enums m hmem e he
      simp [complete, parent, hp]
  rw [collectEnums, own, inner, collectMessages_eq h hm, allEnums, List.filter_append,
    List.filter_flatMap]
  rw [flatMap_filter]
  simp only [decide_eq_true_eq]
  rw [List.flatMap_congr listed]

end File

/-! ## Files that are made are rooted -/

theorem Source.rooted_messageAt (src : Source) (p : Placed MessageDescriptor) :
    (src.messageAt p).isComplete = true ∧
    (∀ n ∈ (src.messageAt p).nested, n.parent = some (src.messageAt p).fullName) ∧
    ∀ e ∈ (src.messageAt p).ownEnums,
      e.isComplete = true ∧ e.parent = some (src.messageAt p).fullName := by
  obtain ⟨parent, path, ⟨d, nested⟩⟩ := p
  have fullName := src.bodyNode_fullName parent path d
  rw [messageAt, messageNode]
  refine ⟨rfl, ?_, ?_⟩
  · rw [nestedNodes_eq_map, List.forall_mem_map]
    intro q _
    obtain ⟨⟨d', nested'⟩, i⟩ := q
    rw [messageNode, fullName]
    exact congrArg Symbol.parent (src.symbol_bodyNode _ _ d')
  · refine List.forall_mem_map.mpr fun e _ => ⟨rfl, ?_⟩
    rw [fullName]
    rfl

theorem FileDescriptor.rooted_node (d : FileDescriptor) (scheme : ImportScheme) (generate : Bool) :
    (d.node scheme generate).Rooted := by
  have inner {P : Message → Prop} (h : ∀ p, P ((d.source scheme).messageAt p)) :
      ∀ m ∈ (d.node scheme generate).allMessages, P m := by
    rw [d.allMessages_node]
    exact List.forall_mem_map.mpr fun p _ => h p
  constructor
  · refine List.forall_mem_map.mpr fun m _ => ?_
    obtain ⟨⟨d', nested'⟩, i⟩ := m
    rw [Source.messageNode]
    exact congrArg Symbol.parent ((d.source scheme).symbol_bodyNode _ _ d')
  · exact List.forall_mem_map.mpr fun e _ => ⟨rfl, rfl⟩
  · exact inner fun p => ((d.source scheme).rooted_messageAt p).1
  · exact inner fun p => ((d.source scheme).rooted_messageAt p).2.1
  · exact inner fun p => ((d.source scheme).rooted_messageAt p).2.2

/-- Links do not matter. -/
theorem File.rooted_of_unlinked {f : File} (h : f.unlinked.Rooted) : f.Rooted := by
  have inner {P : Message → Prop} (hP : ∀ m ∈ f.unlinked.allMessages, P m) :
      ∀ m ∈ f.allMessages, P m.unlinked := by
    rw [allMessages_unlinked] at hP
    exact List.forall_mem_map.mp hP
  have body (m : Message) : m.unlinked.toMessageBody = m.toMessageBody.unlinked :=
    Message.toMessageBody_map _ m
  constructor
  · intro m hm
    have parent := h.ownMessages m.unlinked (List.mem_map_of_mem hm)
    rwa [body] at parent
  · exact h.ownEnums
  · intro m hm
    have complete := inner h.complete m hm
    rwa [body] at complete
  · intro m hm n hn
    obtain ⟨b, nested⟩ := m
    have parent := inner h.nested ⟨b, nested⟩ hm n.unlinked (by
      rw [Message.unlinked_mk]
      exact List.mem_map_of_mem hn)
    rwa [body, body] at parent
  · intro m hm
    have enums := inner h.enums m hm
    rwa [body] at enums

/-! ## What is registered -/

namespace Schema

/-- The messages of a schema, in the order of their registration. -/
def registeredMessages (s : Schema) : List Message :=
  (s.registry.all .message).filterMap fun t => s.message? t.fullName

/-- The enums of a schema, in the order of their registration. -/
def registeredEnums (s : Schema) : List EnumType :=
  (s.registry.all .enum).filterMap fun t => s.enum? t.fullName

variable {s : Schema}

/-- Links do not matter for what the symbols of nodes are. -/
theorem faithful_of_unlinked (h : s.unlinked.Faithful) : s.Faithful := by
  have symbols (f : File) : f.unlinked.symbols = f.symbols := by
    have messages : f.unlinked.allMessages.map (·.symbol) = f.allMessages.map (·.symbol) := by
      rw [f.allMessages_unlinked, List.map_map]
      exact List.map_congr_left fun m _ => Nodes.messages.symbol_unlinked m
    have extensions : f.unlinked.allExtensions.map (·.symbol) =
        f.allExtensions.map (·.symbol) := by
      rw [f.allExtensions_unlinked, List.map_map]
      rfl
    have services : f.unlinked.ownServices.map (·.symbol) = f.ownServices.map (·.symbol) := by
      rw [File.unlinked, List.map_map]
      rfl
    rw [File.symbols, messages, extensions, services, f.allEnums_unlinked]
    rfl
  have all : s.unlinked.files.flatMap File.symbols = s.files.flatMap File.symbols := by
    rw [unlinked, List.flatMap_map]
    exact List.flatMap_congr fun f _ => symbols f
  obtain ⟨distinct, lookup, origin⟩ := h
  rw [all] at distinct lookup
  refine ⟨distinct, lookup, fun f hf => ?_⟩
  have own := origin f.unlinked (List.mem_map_of_mem hf)
  rwa [symbols] at own

/-- The symbols of the nodes of one kind lead back to these nodes. -/
theorem Faithful.filterMap_symbols (hs : s.Faithful) {β : Type} (N : Nodes β) :
    ((s.files.flatMap N.nodes).map N.symbol).filterMap (fun t =>
      (s.files.flatMap N.nodes).find? fun c => (N.symbol c).fullName == t.fullName) =
      s.files.flatMap N.nodes := by
  rw [List.filterMap_map]
  refine (List.filterMap_congr (g := some) fun b hb => ?_).trans List.filterMap_some
  obtain ⟨f, hf, hb⟩ := List.mem_flatMap.mp hb
  exact hs.find?_node N hf hb

theorem Faithful.map_symbol_filterMap (hs : s.Faithful) {β : Type} (N : Nodes β) {ts : List Symbol}
    (h : ∀ t ∈ ts, t ∈ (s.files.flatMap N.nodes).map N.symbol) :
    (ts.filterMap fun t => (s.files.flatMap N.nodes).find? fun c =>
      (N.symbol c).fullName == t.fullName).map N.symbol = ts := by
  rw [List.map_filterMap]
  refine (List.filterMap_congr (g := some) fun t ht => ?_).trans List.filterMap_some
  obtain ⟨b, hb, rfl⟩ := List.mem_map.mp (h t ht)
  obtain ⟨f, hf, hb⟩ := List.mem_flatMap.mp hb
  rw [hs.find?_node N hf hb]
  rfl

theorem Faithful.nodup_symbols (hs : s.Faithful) {β : Type} (N : Nodes β) :
    ((s.files.flatMap N.nodes).map N.symbol).Nodup := by
  have symbols : ((s.files.flatMap N.nodes).map N.symbol).Sublist
      (s.files.flatMap File.symbols) := by
    rw [List.map_flatMap]
    exact List.Sublist.flatMap_right _ fun f _ => N.sublist f
  exact symbols.nodup (hs.distinct.of_map _)

theorem Faithful.nodup_origins (hs : s.Faithful) : (s.files.map File.origin).Nodup := by
  have symbols := hs.nodup_symbols Nodes.files
  have files : s.files.flatMap Nodes.files.nodes = s.files := List.flatMap_singleton' _
  have origins : s.files.map File.symbol =
      (s.files.map File.origin).map fun o => ⟨.file, o.name, o, none⟩ := by
    rw [List.map_map]
    rfl
  rw [files] at symbols
  exact (origins ▸ symbols).of_map _

/-- A symbol is in one file. -/
theorem Faithful.eq_of_mem_symbols (hs : s.Faithful) {f g : File} (hf : f ∈ s.files)
    (hg : g ∈ s.files) {t : Symbol} (htf : t ∈ f.symbols) (htg : t ∈ g.symbols) : g = f := by
  have origin := (hs.origin g hg t htg).symm.trans (hs.origin f hf t htf)
  exact List.inj_on_of_nodup_map hs.nodup_origins hg hf origin

theorem Faithful.origin_of_mem (hs : s.Faithful) {β : Type} (N : Nodes β) {f : File}
    (hf : f ∈ s.files) {b : β} (hb : b ∈ N.nodes f) : (N.symbol b).origin = f.origin :=
  hs.origin f hf _ ((N.sublist f).subset (List.mem_map_of_mem hb))

end Schema

/-- Of what the elements of a list hold, that which has the key of one of them is what this one
holds. -/
theorem filter_flatMap_of_nodup {α β γ : Type} [DecidableEq γ] {key : α → γ} {owner : β → γ}
    {nodes : α → List β} (p : β → Prop) [DecidablePred p] {a : α} : ∀ {as : List α},
    (as.map key).Nodup → (∀ a ∈ as, ∀ b ∈ nodes a, owner b = key a) → a ∈ as →
    (as.flatMap nodes).filter (fun b => owner b = key a ∧ p b) = (nodes a).filter p := by
  intro as nodup owned ha
  obtain ⟨front, back, rfl⟩ := List.append_of_mem ha
  rw [List.map_append, List.map_cons, List.nodup_middle, List.nodup_cons, ← List.map_append]
    at nodup
  have others : ∀ c ∈ front ++ back,
      (nodes c).filter (fun b => owner b = key a ∧ p b) = [] := by
    intro c hc
    refine List.filter_eq_nil_iff.mpr fun b hb => ?_
    have mem : c ∈ front ++ a :: back := by
      rw [List.mem_append, List.mem_cons]
      exact (List.mem_append.mp hc).imp id .inr
    have ne : key c ≠ key a := fun h => nodup.1 (h ▸ List.mem_map_of_mem hc)
    simp [owned c mem b hb, ne]
  have own : (nodes a).filter (fun b => owner b = key a ∧ p b) = (nodes a).filter p := by
    refine List.filter_congr fun b hb => ?_
    simp [owned a ha b hb]
  rw [List.forall_mem_append] at others
  rw [List.filter_flatMap, List.flatMap_append, List.flatMap_cons, own,
    List.flatMap_eq_nil_iff.mpr others.1, List.flatMap_eq_nil_iff.mpr others.2, List.nil_append,
    List.append_nil]

namespace Schema

/-- Of the registered nodes of one kind, the lists of the files hold those that are not hidden, each
in one file and once. -/
structure Shares {β : Type} (s : Schema) (nodes listed : File → List β) (registered : List β)
    (hidden : β → Prop) : Prop where
  /-- Hidden or not, everything in the files is registered. -/
  all : ∀ f ∈ s.files, ∀ b ∈ nodes f, b ∈ registered
  once : ∀ b ∈ registered, ¬hidden b → ∃! f, f ∈ s.files ∧ b ∈ listed f
  never : ∀ b ∈ registered, hidden b → ∀ f ∈ s.files, b ∉ listed f
  nodup : ∀ f ∈ s.files, (listed f).Nodup

variable {s : Schema}

theorem Faithful.shares (hs : s.Faithful) {β : Type} (N : Nodes β) {listed : File → List β}
    {registered : List β} {hidden : β → Prop} [DecidablePred hidden]
    (perm : registered.Perm (s.files.flatMap N.nodes))
    (listing : ∀ f ∈ s.files, listed f = (N.nodes f).filter fun b => ¬hidden b) :
    s.Shares N.nodes listed registered hidden := by
  have mem {f : File} (hf : f ∈ s.files) (b : β) : b ∈ listed f ↔ b ∈ N.nodes f ∧ ¬hidden b := by
    simp [listing f hf]
  constructor
  · intro f hf b hb
    exact perm.mem_iff.mpr (List.mem_flatMap_of_mem hf hb)
  · intro b hb shown
    obtain ⟨f, hf, hbf⟩ := List.mem_flatMap.mp (perm.mem_iff.mp hb)
    refine ⟨f, ⟨hf, (mem hf b).mpr ⟨hbf, shown⟩⟩, ?_⟩
    rintro g ⟨hg, hbg⟩
    exact hs.eq_of_mem_symbols hf hg ((N.sublist f).subset (List.mem_map_of_mem hbf))
      ((N.sublist g).subset (List.mem_map_of_mem ((mem hg b).mp hbg).1))
  · intro b _ gone f hf hbf
    exact ((mem hf b).mp hbf).2 gone
  · intro f hf
    rw [listing f hf]
    have all := (hs.nodup_symbols N).of_map
    have part : (N.nodes f).Sublist (s.files.flatMap N.nodes) := by
      rw [List.flatMap_def]
      exact List.sublist_flatten_of_mem (List.mem_map_of_mem hf)
    exact (part.nodup all).filter _

/-! ## The theorem -/

/-- A message that no file lists: a map entry in a message, or a message inside one that no file
lists. -/
inductive Dropped (s : Schema) : String → Prop where
  | entry {fullName : String} {m : Message} (found : s.message? fullName = some m)
    (entry : m.isMapEntry = true) (nested : m.parent.isSome) : Dropped s fullName
  | inside {fullName : String} {m : Message} {parent : String}
    (found : s.message? fullName = some m) (nested : m.parent = some parent)
    (outer : Dropped s parent) : Dropped s fullName

/-- What the files of a schema list, compared with what the registry holds.  What is `hidden`, by
the full name of a message, is in no list. -/
structure Owned (s : Schema) (hidden : String → Prop) [DecidablePred hidden] : Prop where
  messages_all : s.registry.all .message = s.registeredMessages.map (·.symbol)
  enums_all : s.registry.all .enum = s.registeredEnums.map (·.symbol)
  messages : ∀ f ∈ s.files, f.collectMessages =
    s.registeredMessages.filter fun m => m.origin = f.origin ∧ ¬hidden m.fullName
  enums : ∀ f ∈ s.files, f.collectEnums.Perm
    (s.registeredEnums.filter fun e => e.origin = f.origin ∧ ∀ p ∈ e.parent, ¬hidden p)
  messages_shared : s.Shares File.allMessages File.collectMessages s.registeredMessages
    (hidden ·.fullName)
  enums_shared : s.Shares File.allEnums File.collectEnums s.registeredEnums
    fun e => ∃ p ∈ e.parent, hidden p

theorem map_symbol_unlinked {β : Type} (N : Nodes β) (s : Schema) :
    (s.unlinked.files.flatMap N.nodes).map N.symbol = (s.files.flatMap N.nodes).map N.symbol := by
  rw [unlinked, List.flatMap_map, List.map_flatMap, List.map_flatMap]
  refine List.flatMap_congr fun f _ => ?_
  rw [N.nodes_unlinked, List.map_map]
  exact List.map_congr_left fun b _ => N.symbol_unlinked b

section Made

variable {scheme : ImportScheme} {generate : FileDescriptor → Bool} {files : List FileDescriptor}
  (hs : s.unlinked = made scheme generate files)

include hs

theorem faithful_of_made (distinct : (files.flatMap FileDescriptor.keys).Nodup) : s.Faithful := by
  refine faithful_of_unlinked ?_
  rw [hs]
  exact faithful_of_symbols scheme distinct _ (fun d => d.symbols_node scheme (generate d))
    fun _ => rfl

theorem rooted_of_made : ∀ f ∈ s.files, f.Rooted := by
  intro f hf
  have made : f.unlinked ∈ s.unlinked.files := List.mem_map_of_mem hf
  rw [hs] at made
  obtain ⟨d, -, hd⟩ := List.mem_map.mp made
  exact File.rooted_of_unlinked (hd ▸ d.rooted_node scheme (generate d))

/-- The table of a kind, file by file. -/
theorem all_of_made (kind : DeclKind) : s.registry.all kind =
    files.flatMap fun d => (d.symbols (d.source scheme).origin).filter (·.kind == kind) := by
  have registry : s.registry = (⟨[]⟩ : Registry Symbol).extend (symbols scheme files) :=
    congrArg Schema.registry hs
  rw [registry, ← List.filter_flatMap, Registry.all_extend]
  rfl

/-- The nodes of a kind have the symbols of those that were made. -/
theorem map_symbol_of_made {β : Type} (N : Nodes β) : (s.files.flatMap N.nodes).map N.symbol =
    files.flatMap fun d => (N.nodes (d.node scheme (generate d))).map N.symbol := by
  rw [← map_symbol_unlinked, hs, made, List.flatMap_map, List.map_flatMap]

theorem all_messages_of_made :
    s.registry.all .message = (s.files.flatMap File.allMessages).map (·.symbol) := by
  refine (all_of_made hs .message).trans (.trans ?_ (map_symbol_of_made hs Nodes.messages).symm)
  refine List.flatMap_congr fun d _ => ?_
  exact (d.map_symbol_allMessages_node scheme (generate d)).symm

theorem all_enums_of_made :
    (s.registry.all .enum).Perm ((s.files.flatMap File.allEnums).map (·.symbol)) := by
  refine .trans (.of_eq (all_of_made hs .enum))
    (.trans ?_ (.of_eq (map_symbol_of_made hs Nodes.enums).symm))
  refine List.Perm.flatMap_left _ fun d _ => ?_
  rw [d.filter_enum_symbols rfl]
  have nodes := ((d.allEnums_node scheme (generate d)).map EnumType.symbol).symm
  rwa [List.map_map] at nodes

theorem registeredMessages_of_made (distinct : (files.flatMap FileDescriptor.keys).Nodup) :
    s.registeredMessages = s.files.flatMap File.allMessages := by
  rw [registeredMessages, all_messages_of_made hs]
  exact (faithful_of_made hs distinct).filterMap_symbols Nodes.messages

theorem registeredEnums_of_made (distinct : (files.flatMap FileDescriptor.keys).Nodup) :
    s.registeredEnums.Perm (s.files.flatMap File.allEnums) := by
  refine ((all_enums_of_made hs).filterMap _).trans (.of_eq ?_)
  exact (faithful_of_made hs distinct).filterMap_symbols Nodes.enums

theorem owned_of_made (distinct : (files.flatMap FileDescriptor.keys).Nodup)
    {hidden : String → Prop} [DecidablePred hidden]
    (hides : ∀ f ∈ s.files, ∀ m ∈ f.ownMessages, m.Hides hidden ∧ ¬hidden m.fullName) :
    s.Owned hidden := by
  have faithful := faithful_of_made hs distinct
  have rooted := rooted_of_made hs
  have messages := registeredMessages_of_made hs distinct
  have enums := registeredEnums_of_made hs distinct
  have collectMessages (f : File) (hf : f ∈ s.files) :=
    File.collectMessages_eq (rooted f hf) (hides f hf)
  have collectEnums (f : File) (hf : f ∈ s.files) :=
    File.collectEnums_eq (rooted f hf) (hides f hf)
  have origin {β : Type} (N : Nodes β) (f : File) (hf : f ∈ s.files) (b : β) (hb : b ∈ N.nodes f) :
      (N.symbol b).origin = f.origin := faithful.origin_of_mem N hf hb
  constructor
  · refine (faithful.map_symbol_filterMap Nodes.messages fun t ht => ?_).symm
    rwa [all_messages_of_made hs] at ht
  · refine (faithful.map_symbol_filterMap Nodes.enums fun t ht => ?_).symm
    exact (all_enums_of_made hs).mem_iff.mp ht
  · intro f hf
    rw [messages, collectMessages f hf]
    exact (filter_flatMap_of_nodup _ faithful.nodup_origins (origin Nodes.messages) hf).symm
  · intro f hf
    rw [collectEnums f hf]
    refine .trans (.of_eq ?_) (enums.filter _).symm
    exact (filter_flatMap_of_nodup _ faithful.nodup_origins (origin Nodes.enums) hf).symm
  · exact faithful.shares Nodes.messages (.of_eq messages) collectMessages
  · refine faithful.shares Nodes.enums enums fun f hf => ?_
    refine (collectEnums f hf).trans (List.filter_congr fun e _ => ?_)
    simp

end Made

variable {scheme : ImportScheme} {generate : FileDescriptor → Bool} {files : List FileDescriptor}
  {wanted : List String}

/-- Before they are linked, files list everything that they declare. -/
theorem owned_of_declareEach
    (h : (files.forM fun d => declare scheme (generate d) d) {} = .ok () s) :
    s.Owned fun _ => False := by
  obtain ⟨⟨-, admits⟩, rfl⟩ := (declareEach_yields scheme generate files {} s).mp h
  have distinct := (admits_symbols_iff scheme).mp admits
  refine owned_of_made (unlinked_made scheme generate files) distinct fun f hf m hm => ⟨?_, id⟩
  obtain ⟨d, -, rfl⟩ := List.mem_map.mp hf
  exact ((d.fresh_node scheme (generate d)).messages m hm).hides

/-- Whether a message is dropped can be told from its node. -/
theorem dropped_iff (hs : s.Faithful) {f : File} (hf : f ∈ s.files) {m : Message}
    (hm : m ∈ f.allMessages) : s.Dropped m.fullName ↔
      (m.isMapEntry = true ∧ m.parent.isSome) ∨ ∃ p, m.parent = some p ∧ s.Dropped p := by
  have found : s.message? m.fullName = some m := hs.find?_node Nodes.messages hf hm
  constructor
  · intro dropped
    cases dropped with
    | entry found' entry nested =>
      obtain rfl := Option.some.inj (found.symm.trans found')
      exact .inl ⟨entry, nested⟩
    | inside found' nested outer =>
      obtain rfl := Option.some.inj (found.symm.trans found')
      exact .inr ⟨_, nested, outer⟩
  · rintro (⟨entry, nested⟩ | ⟨p, nested, outer⟩)
    · exact .entry found entry nested
    · exact .inside found nested outer

theorem unlinked_of_ofFiles (h : ofFiles scheme files wanted = .ok s) :
    s.unlinked = made scheme (fun d => wanted.contains d.name) files := by
  obtain ⟨coherent, rfl⟩ := (ofFiles_eq_ok_iff scheme).mp h
  obtain ⟨-, links, -⟩ := (coherent_iff_linkable scheme).mp coherent
  have kept := linkAll_moves (declared scheme files wanted)
  rw [leaves, (linkAll_yields _ _).mpr ⟨links, rfl⟩] at kept
  exact kept.trans (unlinked_made scheme _ files)

theorem hidesEntries_of_ofFiles (h : ofFiles scheme files wanted = .ok s) :
    ∀ f ∈ s.files, ∀ m ∈ f.allMessages, m.hidesEntries = true := by
  obtain ⟨-, rfl⟩ := (ofFiles_eq_ok_iff scheme).mp h
  intro f hf
  obtain ⟨g, hg, rfl⟩ := List.mem_map.mp hf
  obtain ⟨d, -, rfl⟩ := List.mem_map.mp hg
  rw [File.allMessages_linked _ (d.fresh_node scheme _)]
  refine List.forall_mem_map.mpr fun m _ => ?_
  rw [Message.toMessageBody_mapListed]
  rfl

/-- A linked file lists all its messages but those that are dropped. -/
theorem hides_dropped (h : ofFiles scheme files wanted = .ok s) :
    ∀ f ∈ s.files, ∀ m ∈ f.ownMessages, m.Hides s.Dropped ∧ ¬s.Dropped m.fullName := by
  have faithful := faithful_of_ofFiles h
  intro f hf m hm
  have rooted := rooted_of_made (unlinked_of_ofFiles h) f hf
  have hides := hidesEntries_of_ofFiles h f hf
  have inside (n : Message) (hn : n ∈ m.all) := File.mem_allMessages_of_mem hm n hn
  refine ⟨fun n hn k hk => ?_, fun dropped => ?_⟩
  · have mem := inside k (m.mem_all_of_mem_nested n hn k hk)
    have parent := rooted.nested n (inside n hn) k hk
    rw [dropped_iff faithful hf mem, parent]
    simp [MessageBody.lists, rooted.complete k mem, hides n (inside n hn), or_comm]
  · have top := rooted.ownMessages m hm
    rw [dropped_iff faithful hf (inside m m.mem_all_self), top] at dropped
    simp at dropped

noncomputable instance : DecidablePred s.Dropped := fun _ => Classical.propDecidable _

theorem owned_of_ofFiles (h : ofFiles scheme files wanted = .ok s) : s.Owned s.Dropped := by
  obtain ⟨coherent, -⟩ := (ofFiles_eq_ok_iff scheme).mp h
  exact owned_of_made (unlinked_of_ofFiles h) coherent.distinct (hides_dropped h)

/-- Files list what the registry holds of them.  The messages that a file lists at any depth are the
registered ones that are from it, in the order of their registration, and the enums are the
registered ones that are from it.  As long as files are only declared they list everything; once
they are linked they leave out what is dropped, and this stays registered. -/
theorem files_list_registered (scheme : ImportScheme) (files : List FileDescriptor) :
    (∀ wanted s, ofFiles scheme files wanted = .ok s → s.Owned s.Dropped) ∧
    ∀ (generate : FileDescriptor → Bool) (s : Schema),
      (files.forM fun d => declare scheme (generate d) d) {} = .ok () s → s.Owned fun _ => False :=
  ⟨fun _ _ h => owned_of_ofFiles h, fun _ _ h => owned_of_declareEach h⟩

/-- The entry of the map in `shopFiles` is dropped, and the message with the map is not. -/
theorem files_list_registered_shopFiles :
    ∃ s, ofFiles .bundled shopFiles ["shop.proto"] = .ok s ∧ s.Owned s.Dropped ∧
      s.Dropped "shop.Order.ItemsEntry" ∧ ¬s.Dropped "shop.Order" ∧
      ∃ s₀, (shopFiles.forM fun d => declare .bundled (d.name == "shop.proto") d) {} = .ok () s₀ ∧
        s₀.Owned fun _ => False := by
  obtain ⟨s, hs⟩ := exists_ofFiles_shopFiles
  obtain ⟨linked, made⟩ := files_list_registered .bundled shopFiles
  have entry : (ofFiles .bundled shopFiles ["shop.proto"]).toOption.any (fun s =>
      (s.message? "shop.Order.ItemsEntry").any fun m => m.isMapEntry && m.parent.isSome) := by
    decide +kernel
  have order : (ofFiles .bundled shopFiles ["shop.proto"]).toOption.any (fun s =>
      (s.message? "shop.Order").any fun m => !m.isMapEntry && m.parent.isNone) := by
    decide +kernel
  simp only [hs, Except.toOption, Option.any_some] at entry order
  refine ⟨s, hs, linked _ s hs, ?_, ?_, ?_⟩
  · cases found : s.message? "shop.Order.ItemsEntry" with
    | none => simp [found] at entry
    | some m =>
      simp only [found, Option.any_some, Bool.and_eq_true] at entry
      exact .entry found entry.1 entry.2
  · rintro (⟨found, entry, -⟩ | ⟨found, nested, -⟩)
    · simp [found, entry] at order
    · simp [found, nested] at order
  · obtain ⟨coherent, -⟩ := (ofFiles_eq_ok_iff .bundled).mp hs
    have declares := (declareEach_yields .bundled (fun d => d.name == "shop.proto") shopFiles {}
      _).mpr ⟨⟨coherent.sound, (admits_symbols_iff _).mpr coherent.distinct⟩, rfl⟩
    exact ⟨_, declares, made _ _ declares⟩

example : (ofFiles .bundled shopFiles ["shop.proto"]).map (fun s =>
    s.files.map fun f => (f.collectMessages.map (·.fullName), f.collectEnums.map (·.fullName))) =
      .ok [(["shop.Order"], ["shop.Order.State"]), (["base.Item"], [])] := by decide +kernel

end Schema

end Protolink
