import Protolink.Proofs.Drafting
import Protolink.Proofs.Ownership

/-!
# Files that are not finished

A file that cannot be declared stops somewhere: between two registrations, or between a
registration and the place in its owner's list.  `Breaks` says what a draft leaves when it fails:
of what it would have registered a first part, and a node that stands in some relation to that
part.  There is one rule for each way in which drafts are put together, and a draft that comes
first and goes through counts as what `Produces` says of it.

What comes of it is `Schema.declare_unfinished`.  The relation is carried through the declarations
of a message by `Message.Forest`: the messages that are registered are those that the node owns,
each under its parent, whether it is finished or not.
-/

namespace Protolink

variable {σ β α : Type}

/-! ## Drafts that fail -/

/-- A chain of two steps fails if the first one does, or the second one from where the first one
leaves off. -/
theorem Yields.bind_eq_error_iff {ε : Type} {t : EStateM ε σ α} {u : α → EStateM ε σ β} {e : ε}
    {s s'' : σ} : (t >>= u) s = .error e s'' ↔
      t s = .error e s'' ∨ ∃ a s', t s = .ok a s' ∧ u a s' = .error e s'' := by
  change EStateM.bind t u s = _ ↔ _
  unfold EStateM.bind
  cases t s <;> simp

namespace Draft

/-- A draft that fails on `node` has registered a first part of `news` and nothing else, and has
made a node of it that `R` relates to this part. -/
def Breaks (t : Draft σ α) (node : σ) (news : List Symbol) (R : List Symbol → σ → Prop) : Prop :=
  ∀ (r : Registry Symbol) (e : Error) (s : σ × Registry Symbol), t (node, r) = .error e s →
    ∃ part, part <+: news ∧ r.Admits part ∧ s.2 = r.extend part ∧ R part s.1

section Rules

variable {node node' : σ} {xs ys : List Symbol} {P : Prop} {R : List Symbol → σ → Prop}

theorem Breaks.congr {t : Draft σ α} (h : Breaks t node xs R) (hx : xs = ys) :
    Breaks t node ys R := hx ▸ h

theorem Breaks.mono {S : List Symbol → σ → Prop} {t : Draft σ α} (h : Breaks t node xs R)
    (hS : ∀ part n, R part n → S part n) : Breaks t node xs S := by
  intro r e s hs
  obtain ⟨part, hpart, admits, hr, hR⟩ := h r e s hs
  exact ⟨part, hpart, admits, hr, hS part s.1 hR⟩

/-- Nothing can be wrong with a change of the node. -/
theorem breaks_edit (f : σ → σ) : Breaks (edit f) node [] R := by
  intro r e s hs
  exact absurd hs nofun

/-- The second draft fails on what the first one has made. -/
theorem Breaks.seq {t u : Draft σ Unit} (ht : Breaks t node xs R)
    (hp : Produces t node P xs node') (hu : Breaks u node' ys fun part => R (xs ++ part)) :
    Breaks (t >>= fun _ => u) node (xs ++ ys) R := by
  intro r e s hs
  rcases Yields.bind_eq_error_iff.mp hs with hs | ⟨⟨⟩, s', hok, hs⟩
  · obtain ⟨part, hpart, rest⟩ := ht r e s hs
    exact ⟨part, hpart.trans (List.prefix_append xs ys), rest⟩
  · obtain ⟨⟨-, admits⟩, rfl⟩ := (hp r s').mp hok
    obtain ⟨part, hpart, hadmits, hr, hR⟩ := hu (r.extend xs) e s hs
    refine ⟨xs ++ part, (List.prefix_append_right_inj xs).mpr hpart, ?_, ?_, hR⟩
    · exact Registry.admits_append.mpr ⟨admits, hadmits⟩
    · rw [hr, Registry.extend_append]

/-- What is required is missing, or the draft goes on with it. -/
theorem breaks_require {x : Except Error α} {k : α → Draft σ β} (stays : R [] node)
    (hk : ∀ a, x = .ok a → Breaks (k a) node xs R) : Breaks (require x >>= k) node xs R := by
  cases x with
  | ok a => exact hk a rfl
  | error e =>
    intro r e' s hs
    obtain ⟨-, rfl⟩ := EStateM.Result.error.inj hs
    exact ⟨[], List.nil_prefix, Registry.admits_nil r, (Registry.extend_nil r).symm, stays⟩

theorem breaks_ask {q : σ → α} {k : α → Draft σ β} (hk : Breaks (k (q node)) node xs R) :
    Breaks (ask q >>= k) node xs R := hk

/-- A declaration whose key is taken is not registered. -/
theorem breaks_declare (t : Symbol) (stays : R [] node) : Breaks (declare t) node xs R := by
  intro r e s hs
  simp only [declare] at hs
  cases h : r.declare t with
  | ok r' =>
    rw [h] at hs
    cases hs
  | error e' =>
    rw [h] at hs
    obtain ⟨-, rfl⟩ := EStateM.Result.error.inj hs
    exact ⟨[], List.nil_prefix, Registry.admits_nil r, (Registry.extend_nil r).symm, stays⟩

/-- The owner keeps the part that fails. -/
theorem breaks_adopt {add : β → σ → σ} {child : β} {draft : Draft β Unit}
    (h : Breaks draft child xs fun part c => R part (add c node)) :
    Breaks (adopt add child draft) node xs R := by
  intro r e s hs
  simp only [adopt] at hs
  cases hd : draft (child, r) with
  | ok _ s' =>
    rw [hd] at hs
    cases hs
  | error e' s' =>
    rw [hd] at hs
    obtain ⟨-, rfl⟩ := EStateM.Result.error.inj hs
    exact h r e' s' hd

/-- A declaration is registered, and then a part of the node is drafted for it. -/
theorem breaks_declare_adopt {t : Symbol} {add : β → σ → σ} {child : β} {draft : Draft β Unit}
    (stays : R [] node) (h : Breaks draft child xs fun part c => R (t :: part) (add c node)) :
    Breaks (declare t >>= fun _ => adopt add child draft) node (t :: xs) R := by
  refine Breaks.congr (Breaks.seq (breaks_declare t stays) (produces_declare t node) ?_)
    (List.singleton_append)
  exact breaks_adopt h

/-- A loop fails at one of its elements, after all elements before it went through. -/
theorem forEach_eq_error {step : Nat → α → Draft σ Unit} {as : List α} {i : Nat} {e : Error}
    {s s'' : σ × Registry Symbol} (h : forEach step i as s = .error e s'') :
    ∃ done a rest s', as = done ++ a :: rest ∧ forEach step i done s = .ok () s' ∧
      step (i + done.length) a s' = .error e s'' := by
  induction as generalizing i s with
  | nil => exact absurd h nofun
  | cons a as ih =>
    rcases Yields.bind_eq_error_iff.mp h with h | ⟨⟨⟩, s₁, hok, h⟩
    · exact ⟨[], a, as, s, rfl, rfl, h⟩
    · obtain ⟨done, b, rest, s', rfl, hdone, hb⟩ := ih h
      refine ⟨a :: done, b, rest, s', rfl, ?_, ?_⟩
      · exact Yields.bind_eq_ok_iff.mpr ⟨(), s₁, hok, hdone⟩
      · rwa [List.length_cons, ← Nat.add_assoc, Nat.add_right_comm]

/-- What a loop makes of its first elements is known, and it fails at the next one. -/
theorem breaks_forEach {step : Nat → α → Draft σ Unit} {news : α → List Symbol}
    {made : List α → σ} {P : List α → Prop}
    (hp : ∀ done, Produces (forEach step 0 done) node (P done) (done.flatMap news) (made done))
    {as : List α} (hb : ∀ done a rest, as = done ++ a :: rest →
      Breaks (step done.length a) (made done) (news a) fun part =>
        R (done.flatMap news ++ part)) :
    Breaks (forEach step 0 as) node (as.flatMap news) R := by
  intro r e s hs
  obtain ⟨done, a, rest, s', rfl, hdone, ha⟩ := forEach_eq_error hs
  obtain ⟨⟨-, admits⟩, rfl⟩ := (hp done r s').mp hdone
  rw [Nat.zero_add] at ha
  obtain ⟨part, hpart, hadmits, hr, hR⟩ := hb done a rest rfl _ e s ha
  refine ⟨done.flatMap news ++ part, ?_, ?_, ?_, hR⟩
  · rw [List.flatMap_append, List.flatMap_cons, List.prefix_append_right_inj]
    exact hpart.trans (List.prefix_append _ _)
  · exact Registry.admits_append.mpr ⟨admits, hadmits⟩
  · rw [hr, Registry.extend_append]

/-- A loop that registers nothing stops on what it has made so far. -/
theorem breaks_forEach_of_nil {step : Nat → α → Draft σ Unit} {made : List α → σ}
    {P : List α → Prop}
    (hp : ∀ done, Produces (forEach step 0 done) node (P done) [] (made done))
    (hb : ∀ i a n, R [] n → Breaks (step i a) n [] R) (stays : ∀ done, R [] (made done))
    (as : List α) : Breaks (forEach step 0 as) node [] R := by
  have nothing (as : List α) : as.flatMap (fun _ => ([] : List Symbol)) = [] := by simp
  have loop : Breaks (forEach step 0 as) node (as.flatMap fun _ => []) R := by
    refine breaks_forEach (fun done => (hp done).congr Iff.rfl (nothing done).symm rfl) ?_
    intro done a rest _
    rw [nothing]
    exact hb done.length a (made done) (stays done)
  rwa [nothing] at loop

end Rules

end Draft

/-! ## Messages under their parents -/

/-- Messages that stand under `parent`, with all messages inside them: each knows the message that
it is in, and in this order they are the messages among the declarations `news`. -/
structure Message.Forest (parent : Option String) (news : List Symbol) (ms : List Message) :
    Prop where
  parents : ∀ m ∈ ms, m.parent = parent
  nested : ∀ m ∈ allOf ms, ∀ n ∈ m.nested, n.parent = some m.fullName
  symbols : news.filter (·.kind == .message) = (allOf ms).map (·.symbol)

namespace Message

variable {parent : Option String} {xs ys : List Symbol} {ms ns : List Message} {m : Message}

theorem Forest.nil : Forest parent [] [] := ⟨nofun, nofun, rfl⟩

theorem Forest.append (h : Forest parent xs ms) (h' : Forest parent ys ns) :
    Forest parent (xs ++ ys) (ms ++ ns) := by
  have split : allOf (ms ++ ns) = allOf ms ++ allOf ns := by
    simp only [allOf_eq_flatMap, List.flatMap_append]
  constructor
  · exact List.forall_mem_append.mpr ⟨h.parents, h'.parents⟩
  · rw [split]
    exact List.forall_mem_append.mpr ⟨h.nested, h'.nested⟩
  · rw [List.filter_append, split, List.map_append, h.symbols, h'.symbols]

/-- Declarations of other kinds do not matter. -/
theorem Forest.append_others (h : Forest parent xs ms) (hys : ∀ t ∈ ys, t.kind ≠ .message) :
    Forest parent (xs ++ ys) ms := by
  have none : ys.filter (·.kind == .message) = [] :=
    List.filter_eq_nil_iff.mpr fun t ht => by simpa using hys t ht
  exact { h with symbols := by rw [List.filter_append, none, List.append_nil, h.symbols] }

/-- A message above the messages that stand under it. -/
theorem Forest.graft (hm : m.parent = parent) (h : Forest (some m.fullName) xs m.nested) :
    Forest parent (m.symbol :: xs) [m] := by
  have all : allOf [m] = m :: allOf m.nested := by
    cases m
    simp only [allOf, Message.all, List.append_nil]
  constructor
  · exact List.forall_mem_singleton.mpr hm
  · rw [all]
    exact List.forall_mem_cons.mpr ⟨h.parents, h.nested⟩
  · rw [all, List.map_cons, ← h.symbols]
    rfl

end Message

/-- The nodes of messages are a forest. -/
theorem Source.forest_messageNodes (src : Source) (parent : Option String) (path : List Int)
    (tag : Int) (i : Nat) (ds : List MessageDescriptor) :
    Message.Forest parent (MessageDescriptor.symbolsOf src.origin parent ds)
      ((ds.zipIdx i).map fun d => src.messageNode parent (path ++ [tag, (d.2 : Int)]) d.1) := by
  constructor
  · refine List.forall_mem_map.mpr fun q _ => ?_
    obtain ⟨⟨d, nested⟩, j⟩ := q
    rw [messageNode]
    exact congrArg Symbol.parent (src.symbol_bodyNode parent _ d)
  · rw [allOf_messageNodes]
    exact List.forall_mem_map.mpr fun p _ => (src.rooted_messageAt p).2.1
  · rw [MessageDescriptor.filter_message_symbolsOf src.origin parent path tag i,
      allOf_messageNodes, List.map_map]
    exact List.map_congr_left fun p _ => (src.symbol_messageAt p).symm

/-- The node of one message is a forest. -/
theorem Source.forest_messageNode (src : Source) (parent : Option String) (path : List Int)
    (tag : Int) (i : Nat) (d : MessageDescriptor) :
    Message.Forest parent (src.origin.symbol .message parent d.name ::
        d.innerSymbols src.origin (Name.join (src.scope parent) d.name))
      [src.messageNode parent (path ++ [tag, (i : Int)]) d] := by
  have forest := src.forest_messageNodes parent path tag i [d]
  rwa [MessageDescriptor.symbolsOf, MessageDescriptor.symbolsOf, List.append_nil] at forest

/-! ## Declarations that fail -/

/-- A message of which the declarations `news` inside it are read so far. -/
structure Message.Begun (blank : Message) (news : List Symbol) (m : Message) : Prop where
  symbol : m.symbol = blank.symbol
  isComplete : m.isComplete = false
  nested : Forest (some blank.fullName) news m.nested

/-- With what is read of it, such a message may stand under its parent. -/
theorem Message.Begun.forest {blank m : Message} {news : List Symbol} (h : Begun blank news m) :
    Forest blank.parent (blank.symbol :: news) [m] := by
  have fullName : m.fullName = blank.fullName := congrArg Symbol.fullName h.symbol
  rw [← h.symbol]
  refine Forest.graft (congrArg Symbol.parent h.symbol) ?_
  rw [fullName]
  exact h.nested

/-- Nested messages are read into it. -/
theorem Message.Begun.nest {blank m n : Message} {xs ys : List Symbol} (h : Begun blank xs m)
    (body : n.toMessageBody = m.toMessageBody) (forest : Forest (some m.fullName) ys n.nested) :
    Begun blank ys n := by
  have fullName : m.fullName = blank.fullName := congrArg Symbol.fullName h.symbol
  rw [fullName] at forest
  refine ⟨?_, ?_, forest⟩
  · rw [body]
    exact h.symbol
  · rw [body]
    exact h.isComplete

namespace Source

variable {σ : Type} (src : Source) {parent : Option String} {path : List Int} {node : σ}
  {R : List Symbol → σ → Prop}

/-- An extension is added when nothing can fail any more. -/
theorem declareExtension_breaks {d : FieldDescriptor} {add : Field → σ → σ} (stays : R [] node) :
    Draft.Breaks (src.declareExtension parent path d add) node
      [src.origin.symbol .extension parent d.name] R := by
  refine Draft.breaks_require stays fun x hx => ?_
  obtain ⟨-, rfl⟩ := src.field_eq_ok_iff.mp hx
  exact (Draft.breaks_declare _ stays).seq (Draft.produces_declare _ node) (Draft.breaks_edit _)

/-- An enum is kept, even if it is not read to the end. -/
theorem declareEnum_breaks {d : EnumDescriptor} {add : EnumType → σ → σ} (stays : R [] node)
    (kept : ∀ e, R [src.origin.symbol .enum parent d.name] (add e node)) :
    Draft.Breaks (src.declareEnum parent path d add) node
      [src.origin.symbol .enum parent d.name] R := by
  refine Draft.breaks_require stays fun name hname => ?_
  obtain ⟨-, rfl⟩ := requireName_eq_ok_iff.mp hname
  refine Draft.breaks_declare_adopt stays ?_
  refine Draft.Breaks.seq (Draft.breaks_forEach_of_nil
    (fun done => src.fillEnumValues_produces path done _) ?_ (fun _ => kept _) d.values)
    (src.fillEnumValues_produces path d.values _) (Draft.breaks_edit _)
  intro i v e stays
  exact Draft.breaks_ask (Draft.breaks_require stays fun _ _ => Draft.breaks_edit _)

/-- A service is kept, even if it is not read to the end. -/
theorem declareService_breaks {R : List Symbol → File → Prop} {d : ServiceDescriptor} {f : File}
    (stays : R [] f) (kept : ∀ s : Service, R [src.origin.symbol .service none d.name]
      { f with ownServices := f.ownServices ++ [s] }) :
    Draft.Breaks (src.declareService path d) f [src.origin.symbol .service none d.name] R := by
  refine Draft.breaks_require stays fun name hname => ?_
  obtain ⟨-, rfl⟩ := requireName_eq_ok_iff.mp hname
  refine Draft.breaks_declare_adopt stays ?_
  refine Draft.Breaks.seq (Draft.breaks_forEach_of_nil
    (fun done => src.fillMethods_produces path done _) ?_ (fun _ => kept _) d.methods)
    (src.fillMethods_produces path d.methods _) (Draft.breaks_edit _)
  intro i m s stays
  exact Draft.breaks_ask (Draft.breaks_require stays fun _ _ => Draft.breaks_edit _)

/-! ### Messages -/

theorem fillOneof_breaks {i : Nat} {d : OneofDescriptor} {m : Message}
    {R : List Symbol → Message → Prop} (stays : R [] m) :
    Draft.Breaks (src.fillOneof path i d) m [] R :=
  Draft.breaks_ask (Draft.breaks_require stays fun _ _ => Draft.breaks_edit _)

theorem fillField_breaks {i : Nat} {d : FieldDescriptor} {m : Message}
    {R : List Symbol → Message → Prop} (stays : R [] m) :
    Draft.Breaks (src.fillField path i d) m [] R :=
  Draft.breaks_ask (Draft.breaks_require stays fun _ _ =>
    Draft.breaks_require stays fun _ _ => Draft.breaks_edit _)

theorem declareMessage_breaks {d : MessageDecl} {add : Message → σ → σ}
    {fill : Draft Message Unit} {news : List Symbol} (stays : R [] node)
    (h : Draft.Breaks fill (src.blankMessage parent path d) news fun part m =>
      R (src.origin.symbol .message parent d.name :: part) (add m node)) :
    Draft.Breaks (src.declareMessage parent path d add fill) node
      (src.origin.symbol .message parent d.name :: news) R := by
  refine Draft.breaks_require stays fun name hname => ?_
  obtain ⟨-, rfl⟩ := requireName_eq_ok_iff.mp hname
  exact Draft.breaks_declare_adopt stays h

/-- The symbols of one kind of declarations are not those of messages. -/
theorem kind_ne_message_of_mem (parent : Option String) (kind : DeclKind) (hkind : kind ≠ .message)
    (name : α → String) (as : List α) :
    ∀ t ∈ as.flatMap (fun a => [src.origin.symbol kind parent (name a)]), t.kind ≠ .message := by
  rw [List.forall_mem_flatMap]
  intro a _
  exact List.forall_mem_singleton.mpr hkind

/-- Once its nested messages are there, only declarations of other kinds are read into a
message. -/
theorem fillRest_breaks (path : List Int) (d : MessageDecl) {blank m : Message}
    {xs : List Symbol} (h : Message.Begun blank xs m) :
    Draft.Breaks (do
      let scope ← Draft.ask (·.fullName)
      Draft.forEach (fun i e => src.declareEnum (some scope) (path ++ [Tag.enums, (i : Int)]) e
        fun enum m => { m with ownEnums := m.ownEnums ++ [enum] }) 0 d.enums
      Draft.forEach (fun i x => src.declareExtension (some scope)
        (path ++ [Tag.extensions, (i : Int)]) x
        fun extension m => { m with extensions := m.extensions ++ [extension] }) 0 d.extensions
      Draft.edit fun m => { m with isComplete := true }) m (d.symbols src.origin m.fullName)
      fun part => Message.Begun blank (xs ++ part) := by
  have others {ys : List Symbol} {n : Message} (hn : n.symbol = m.symbol)
      (hc : n.isComplete = m.isComplete) (nested : n.nested = m.nested)
      (hys : ∀ t ∈ ys, t.kind ≠ .message) : Message.Begun blank (xs ++ ys) n := by
    refine ⟨hn.trans h.symbol, hc.trans h.isComplete, ?_⟩
    rw [nested]
    exact h.nested.append_others hys
  have enumKinds (es : List EnumDescriptor) :=
    src.kind_ne_message_of_mem (some m.fullName) .enum nofun (·.name) es
  have extensionKinds (es : List FieldDescriptor) :=
    src.kind_ne_message_of_mem (some m.fullName) .extension nofun (·.name) es
  refine Draft.Breaks.congr (Draft.breaks_ask (Draft.Breaks.seq ?enums
    (src.declareEnums_produces m.fullName path d.enums m) (Draft.Breaks.seq ?extensions
      (src.declareExtensions_produces m.fullName path d.extensions _) (Draft.breaks_edit _)))) ?news
  case enums =>
    refine (Draft.breaks_forEach (fun done => (src.declareEnums_produces _ path done _).congr
      Iff.rfl List.map_eq_flatMap rfl) fun done e rest _ => ?_).congr List.map_eq_flatMap.symm
    refine src.declareEnum_breaks ?_ fun e => ?_
    · refine others rfl rfl rfl ?_
      rw [List.append_nil]
      exact enumKinds done
    · refine others rfl rfl rfl (List.forall_mem_append.mpr ⟨enumKinds done, ?_⟩)
      exact List.forall_mem_singleton.mpr nofun
  case extensions =>
    refine (Draft.breaks_forEach (fun done => (src.declareExtensions_produces _ path done _).congr
      Iff.rfl List.map_eq_flatMap rfl) fun done x rest _ => ?_).congr List.map_eq_flatMap.symm
    refine src.declareExtension_breaks (others rfl rfl rfl ?_)
    rw [List.append_nil, List.map_eq_flatMap]
    exact List.forall_mem_append.mpr ⟨enumKinds d.enums, extensionKinds done⟩
  case news =>
    rw [List.append_nil]
    rfl

mutual

theorem fillMessage_breaks (parent : Option String) (path : List Int) : ∀ d : MessageDescriptor,
    Draft.Breaks (src.fillMessage path d) (src.blankMessage parent path d.toMessageDecl)
      (d.innerSymbols src.origin (Name.join (src.scope parent) d.name))
      (Message.Begun (src.blankMessage parent path d.toMessageDecl))
  | ⟨d, nested⟩ => by
    let blank := src.blankMessage parent path d
    let read (oneofs : List Oneof) (fields : List Field) : MessageBody :=
      fields.foldl MessageBody.addField { blank.toMessageBody with oneofs }
    have begun (os : List Oneof) (fs : List Field) : Message.Begun blank [] ⟨read os fs, []⟩ :=
      ⟨MessageBody.foldl_addField_frame (fun _ _ => rfl) _ fs,
        MessageBody.foldl_addField_frame (fun _ _ => rfl) _ fs, .nil⟩
    rw [fillMessage]
    refine Draft.Breaks.congr (Draft.Breaks.seq ?oneofs
      (src.fillOneofs_produces path d.oneofs _) (Draft.Breaks.seq ?fields
      (src.fillFields_produces path d.fields _) (Draft.Breaks.seq ?inside
        (src.fillNested_produces path 0 nested _) (src.fillRest_breaks path d ?rest)))) ?news
    case oneofs =>
      refine Draft.breaks_forEach_of_nil (fun done => src.fillOneofs_produces path done _)
        (fun i o m => src.fillOneof_breaks) (fun done => ?_) d.oneofs
      exact begun _ []
    case fields =>
      refine Draft.breaks_forEach_of_nil (fun done => src.fillFields_produces path done _)
        (fun i f m => src.fillField_breaks) (fun done => ?_) d.fields
      exact begun _ _
    case inside =>
      refine (fillNested_breaks path 0 nested _ [] .nil).mono fun part n hn => ?_
      exact (begun _ _).nest hn.1 hn.2
    case rest =>
      refine (begun _ _).nest rfl ?_
      rw [nestedNodes_eq_map]
      exact src.forest_messageNodes _ path Tag.nested 0 nested
    case news =>
      simp [MessageDescriptor.innerSymbols, blankMessage]

theorem fillNested_breaks (path : List Int) (i : Nat) : ∀ (ds : List MessageDescriptor)
    (m : Message) (xs : List Symbol), Message.Forest (some m.fullName) xs m.nested →
    Draft.Breaks (src.fillNested path i ds) m
      (MessageDescriptor.symbolsOf src.origin (some m.fullName) ds) fun part n =>
        n.toMessageBody = m.toMessageBody ∧
          Message.Forest (some m.fullName) (xs ++ part) n.nested
  | [], m, xs, _ => by
    rw [fillNested]
    intro r e s hs
    exact absurd hs nofun
  | ⟨d, nested⟩ :: ds, m, xs, h => by
    rw [fillNested, MessageDescriptor.symbolsOf]
    refine Draft.breaks_ask (Draft.Breaks.seq ?_
      (src.declareTree_produces _ _ ⟨d, nested⟩ _ m) ?_)
    · refine src.declareMessage_breaks ⟨rfl, ?_⟩ ?_
      · rw [List.append_nil]
        exact h
      · refine (fillMessage_breaks (some m.fullName) _ ⟨d, nested⟩).mono fun part n hn => ?_
        exact ⟨rfl, h.append hn.forest⟩
    · have forest := h.append
        (src.forest_messageNode (some m.fullName) path Tag.nested i ⟨d, nested⟩)
      refine (fillNested_breaks path (i + 1) ds _ _ forest).mono fun part n hn => ?_
      rw [← List.append_assoc]
      exact hn

end

/-- The nodes of the top-level messages of a file, or of the first ones of them. -/
def topMessages (ds : List MessageDescriptor) : List Message :=
  ds.zipIdx.map fun d => src.messageNode none [Tag.fileMessages, (d.2 : Int)] d.1

end Source

/-! ## Files that fail -/

namespace FileDescriptor

/-- A file of which the declarations `news` are read so far: some of its top-level messages, and
perhaps a further one that is not read to the end. -/
structure Begun (d : FileDescriptor) (src : Source) (blank : File) (news : List Symbol) (f : File) :
    Prop where
  header : { f with ownMessages := [], ownEnums := [], ownServices := [], extensions := [] } = blank
  ownMessages : ∃ done rest, ∃ under : Option Message, d.messages = done ++ rest ∧
    f.ownMessages = src.topMessages done ++ under.toList ∧
    ∀ m ∈ under, m.isComplete = false ∧
      ∃ top ∈ rest.head?, m.symbol = src.origin.symbol .message none top.name
  forest : Message.Forest none news f.ownMessages

variable (d : FileDescriptor) (src : Source) (generate : Bool)

theorem forest_topMessages (ds : List MessageDescriptor) :
    Message.Forest none (ds.flatMap fun m => src.origin.symbol .message none m.name ::
      m.innerSymbols src.origin (Name.join (src.scope none) m.name)) (src.topMessages ds) := by
  have forest := src.forest_messageNodes none [] Tag.fileMessages 0 ds
  rwa [MessageDescriptor.symbolsOf_eq_flatMap] at forest

theorem fill_breaks : Draft.Breaks (d.fill src) (d.blank src generate) (d.symbols src.origin).tail
    (d.Begun src (d.blank src generate)) := by
  have others {xs : List Symbol} {f : File} (header : { f with
        ownMessages := [], ownEnums := [], ownServices := [], extensions := [] } =
        d.blank src generate) (messages : f.ownMessages = src.topMessages d.messages)
      (hxs : ∀ t ∈ xs, t.kind ≠ .message) : d.Begun src (d.blank src generate)
        ((d.messages.flatMap fun m => src.origin.symbol .message none m.name ::
          m.innerSymbols src.origin (Name.join (src.scope none) m.name)) ++ xs) f := by
    refine ⟨header, ⟨d.messages, [], none, ?_, ?_, fun _ h => absurd h (Option.not_mem_none _)⟩, ?_⟩
    · rw [List.append_nil]
    · rw [messages, Option.toList_none, List.append_nil]
    · rw [messages]
      exact (forest_topMessages src d.messages).append_others hxs
  have enumKinds (es : List EnumDescriptor) :=
    src.kind_ne_message_of_mem none .enum DeclKind.noConfusion (·.name) es
  have serviceKinds (ss : List ServiceDescriptor) :=
    src.kind_ne_message_of_mem none .service DeclKind.noConfusion (·.name) ss
  have extensionKinds (xs : List FieldDescriptor) :=
    src.kind_ne_message_of_mem none .extension DeclKind.noConfusion (·.name) xs
  refine Draft.Breaks.congr (Draft.Breaks.seq ?messages
    (declareMessages_produces src d.messages _) (Draft.Breaks.seq ?enums
      (declareFileEnums_produces src d.enums _) (Draft.Breaks.seq ?services
        (declareServices_produces src d.services _) (Draft.Breaks.seq ?extensions
          (declareFileExtensions_produces src d.extensions _) (Draft.breaks_edit _))))) ?news
  case messages =>
    refine Draft.breaks_forEach (fun done => declareMessages_produces src done _) ?_
    intro done top rest hd
    have forest := forest_topMessages src done
    refine src.declareMessage_breaks ?_ ?_
    · rw [List.append_nil]
      refine ⟨rfl, ⟨done, top :: rest, none, hd, (List.append_nil _).symm, ?_⟩, forest⟩
      exact fun _ h => absurd h (Option.not_mem_none _)
    · refine (src.fillMessage_breaks none _ top).mono fun part m hm => ?_
      refine ⟨rfl, ⟨done, top :: rest, some m, hd, rfl, ?_⟩, forest.append hm.forest⟩
      rintro _ ⟨⟩
      exact ⟨hm.isComplete, top, rfl, hm.symbol⟩
  case enums =>
    refine Draft.breaks_forEach (fun done => declareFileEnums_produces src done _) ?_
    intro done e rest _
    refine src.declareEnum_breaks (others rfl rfl ?_) fun e => others rfl rfl ?_
    · rw [List.append_nil]
      exact enumKinds done
    · rw [List.forall_mem_append, List.forall_mem_singleton]
      exact ⟨enumKinds done, DeclKind.noConfusion⟩
  case services =>
    refine Draft.breaks_forEach (fun done => declareServices_produces src done _) ?_
    intro done s rest _
    refine src.declareService_breaks (others rfl rfl ?_) fun s => others rfl rfl ?_
    · rw [List.append_nil]
      exact List.forall_mem_append.mpr ⟨enumKinds d.enums, serviceKinds done⟩
    · simp only [List.forall_mem_append, List.forall_mem_singleton]
      exact ⟨enumKinds d.enums, serviceKinds done, DeclKind.noConfusion⟩
  case extensions =>
    refine Draft.breaks_forEach (fun done => declareFileExtensions_produces src done _) ?_
    intro done x rest _
    refine src.declareExtension_breaks (others rfl rfl ?_)
    simp only [List.append_nil, List.forall_mem_append]
    exact ⟨enumKinds d.enums, serviceKinds d.services, extensionKinds done⟩
  case news =>
    simp [symbols, MessageDescriptor.symbolsOf_eq_flatMap, Source.scope, List.map_eq_flatMap]

/-- The file is registered before anything is read of it, and then it is kept. -/
theorem declare_breaks (scheme : ImportScheme) (fs : List File) :
    Draft.Breaks (d.declare scheme generate) fs (d.symbols (d.source scheme).origin)
      fun part gs => (part = [] ∧ gs = fs) ∨ ∃ rest f, part = f.symbol :: rest ∧ gs = fs ++ [f] ∧
        d.Begun (d.source scheme) (d.blank (d.source scheme) generate) rest f := by
  unfold declare
  split
  · intro r e s hs
    obtain ⟨-, rfl⟩ := EStateM.Result.error.inj hs
    exact ⟨[], List.nil_prefix, Registry.admits_nil r, (Registry.extend_nil r).symm,
      .inl ⟨rfl, rfl⟩⟩
  · refine Draft.breaks_declare_adopt (.inl ⟨rfl, rfl⟩) ?_
    refine (d.fill_breaks (d.source scheme) generate).mono fun part f hf => .inr ?_
    refine ⟨part, f, ?_, rfl, hf⟩
    rw [← hf.header]
    rfl

end FileDescriptor

/-! ## What is left of a file -/

/-- A declaration is the message `top`, or it is in it at some depth, going by the parents of the
messages among the declarations `news`. -/
inductive Symbol.Descends (news : List Symbol) (top : Symbol) : Symbol → Prop where
  | top : Descends news top top
  | inside {p t : Symbol} (outer : Descends news top p) (mem : p ∈ news) (kind : p.kind = .message)
    (parent : t.parent = some p.fullName) : Descends news top t

namespace Message

variable {news : List Symbol} {top : Symbol}

mutual

/-- What stands under a message descends from where the message does. -/
theorem descends_all : ∀ m : Message,
    (∀ n ∈ m.all, n.symbol ∈ news ∧ ∀ k ∈ n.nested, k.parent = some n.fullName) →
    Symbol.Descends news top m.symbol → ∀ n ∈ m.all, Symbol.Descends news top n.symbol
  | ⟨body, nested⟩, h, hm => by
    obtain ⟨⟨mem, parents⟩, inner⟩ := forall_mem_all_iff.mp h
    refine forall_mem_all_iff.mpr ⟨hm, descends_allOf nested inner fun n hn => ?_⟩
    exact hm.inside mem rfl (parents n hn)

theorem descends_allOf : ∀ ms : List Message,
    (∀ n ∈ allOf ms, n.symbol ∈ news ∧ ∀ k ∈ n.nested, k.parent = some n.fullName) →
    (∀ m ∈ ms, Symbol.Descends news top m.symbol) →
    ∀ n ∈ allOf ms, Symbol.Descends news top n.symbol
  | [], _, _ => List.forall_mem_nil _
  | m :: ms, h, hms => by
    rw [allOf, List.forall_mem_append] at h
    rw [List.forall_mem_cons] at hms
    rw [allOf, List.forall_mem_append]
    exact ⟨descends_all m h.1 hms.1, descends_allOf ms h.2 hms.2⟩

end

end Message

/-- What a file is when its declaration has failed after `news` were registered. -/
structure FileDescriptor.Unfinished (d : FileDescriptor) (scheme : ImportScheme) (generate : Bool)
    (news : List Symbol) (f : File) : Prop where
  /-- Only the lists of its declarations are not as they were at first. -/
  header : { f with ownMessages := [], ownEnums := [], ownServices := [], extensions := [] } =
    d.blank (d.source scheme) generate
  blank : f.Blank
  /-- The top-level messages that are listed are the first ones, as they are in a file that is
  declared to the end. -/
  messages : f.messages = (d.source scheme).topMessages (d.messages.take f.messages.length)
  /-- And so are the messages that are listed in them. -/
  collectMessages : f.collectMessages = (MessageDescriptor.preorderOf d.package none []
    Tag.fileMessages 0 (d.messages.take f.messages.length)).map (d.source scheme).messageAt
  /-- Further messages are registered only if they are, or are in, the message after the last one
  that is listed. -/
  registered : ∃ others, news.filter (·.kind == .message) =
      f.collectMessages.map (·.symbol) ++ others ∧
    ∀ t ∈ others, ∃ top, d.messages[f.messages.length]? = some top ∧
      Symbol.Descends news ((d.source scheme).origin.symbol .message none top.name) t
  /-- Listed or not, what is registered is kept. -/
  allMessages : news.filter (·.kind == .message) = f.allMessages.map (·.symbol)

namespace Source

variable (src : Source)

theorem fresh_topMessages (ds : List MessageDescriptor) : ∀ m ∈ src.topMessages ds, m.Fresh :=
  List.forall_mem_map.mpr fun _ _ => fresh_messageNode none _ _

theorem allOf_topMessages (ds : List MessageDescriptor) : Message.allOf (src.topMessages ds) =
    (MessageDescriptor.preorderOf src.origin.package none [] Tag.fileMessages 0 ds).map
      src.messageAt :=
  src.allOf_messageNodes none [] Tag.fileMessages 0 ds

end Source

theorem FileDescriptor.Begun.unfinished {d : FileDescriptor} {scheme : ImportScheme}
    {generate : Bool} {news : List Symbol} {f : File}
    (h : d.Begun (d.source scheme) (d.blank (d.source scheme) generate) news f) (blank : f.Blank) :
    d.Unfinished scheme generate (f.symbol :: news) f := by
  obtain ⟨done, rest, under, hd, own, hunder⟩ := h.ownMessages
  let src := d.source scheme
  have fresh := src.fresh_topMessages done
  have listed : f.messages = src.topMessages done := by
    have nothing : under.toList.filter (·.isComplete) = [] :=
      List.filter_eq_nil_iff.mpr fun m hm => by simp [(hunder m (Option.mem_toList.mp hm)).1]
    rw [File.messages, own, List.filter_append, nothing, List.append_nil, List.filter_eq_self]
    exact fun m hm => (fresh m hm m m.mem_all_self).1
  have length : f.messages.length = done.length := by
    rw [listed, Source.topMessages, List.length_map, List.length_zipIdx]
  have take : d.messages.take f.messages.length = done := by
    rw [length, hd, List.take_left]
  have collected : f.collectMessages = Message.allOf (src.topMessages done) := by
    rw [File.collectMessages, listed, Message.allOf_eq_flatMap]
    exact List.flatMap_congr fun m hm => (fresh m hm).cons_collect
  have all : (f.symbol :: news).filter (·.kind == .message) = f.allMessages.map (·.symbol) :=
    h.forest.symbols
  have split : f.allMessages = f.collectMessages ++ Message.allOf under.toList := by
    rw [collected, File.allMessages, own]
    simp only [Message.allOf_eq_flatMap, List.flatMap_append, src]
  refine ⟨h.header, blank, ?_, ?_, ⟨(Message.allOf under.toList).map (·.symbol), ?_, ?_⟩, all⟩
  · rw [take]
    exact listed
  · rw [take, collected]
    exact src.allOf_topMessages done
  · rw [all, split, List.map_append]
  · rw [List.forall_mem_map]
    cases under with
    | none => exact List.forall_mem_nil _
    | some m =>
      obtain ⟨-, top, htop, symbol⟩ := hunder m rfl
      obtain ⟨rest, rfl⟩ := List.head?_eq_some_iff.mp htop
      have under : ∀ n ∈ m.all, n ∈ f.allMessages := by
        rw [split, Option.toList_some, Message.allOf_eq_flatMap, List.flatMap_singleton]
        exact fun n hn => List.mem_append_right _ hn
      have inner : ∀ n ∈ m.all, n.symbol ∈ f.symbol :: news ∧
          ∀ k ∈ n.nested, k.parent = some n.fullName := by
        refine fun n hn => ⟨?_, h.forest.nested n (under n hn)⟩
        exact (List.mem_filter.mp (all ▸ List.mem_map_of_mem (under n hn))).1
      intro n hn
      rw [Option.toList_some, Message.allOf_eq_flatMap, List.flatMap_singleton] at hn
      refine ⟨top, ?_, m.descends_all inner ?_ n hn⟩
      · rw [length, hd, List.getElem?_append_right (Nat.le_refl _), Nat.sub_self,
          List.getElem?_cons_zero]
      · rw [symbol]
        exact .top

namespace Schema

variable {scheme : ImportScheme} {generate : Bool} {d : FileDescriptor} {s t : Schema} {e : Error}

/-- A declaration that fails leaves nothing, or the file as far as it came. -/
theorem declare_eq_error (h : declare scheme generate d s = .error e t) :
    t = s ∨ ∃ rest f, f.symbol :: rest <+: d.symbols (d.source scheme).origin ∧
      s.registry.Admits (f.symbol :: rest) ∧
      t = ⟨s.registry.extend (f.symbol :: rest), s.files ++ [f]⟩ ∧ f.Blank ∧
      d.Begun (d.source scheme) (d.blank (d.source scheme) generate) rest f := by
  have grown := (declare_grows scheme generate d s).1
  rw [leaves, h, final] at grown
  obtain ⟨fs, blank, hfs⟩ := grown.files
  simp only [declare] at h
  cases hd : d.declare scheme generate (s.files, s.registry) with
  | ok u s' =>
    rw [hd] at h
    cases h
  | error e' s' =>
    rw [hd] at h
    obtain ⟨-, rfl⟩ := EStateM.Result.error.inj h
    obtain ⟨part, hpart, admits, hr, hfiles⟩ := d.declare_breaks generate scheme _ _ _ _ hd
    simp only [hr]
    rcases hfiles with ⟨rfl, hf⟩ | ⟨rest, f, rfl, hf, begun⟩
    · left
      rw [hf, Registry.extend_nil]
    · rw [hf, List.append_cancel_left_eq] at hfs
      refine .inr ⟨rest, f, hpart, admits, by rw [hf], blank f ?_, begun⟩
      rw [← hfs]
      exact List.mem_singleton_self f

/-- A declaration that fails has registered a first part of what the file declares, and no other
file changes.  If the file itself is registered, it is kept as far as it came: what it lists at any
depth is complete, no reference in it is followed, and all other messages of it that are registered
are in the one that was being read. -/
theorem declare_unfinished (h : declare scheme generate d s = .error e t) :
    ∃ news, news <+: d.symbols (d.source scheme).origin ∧ news.map Symbol.key <+: d.keys ∧
      s.registry.Admits news ∧ t.registry = s.registry.extend news ∧
      (news = [] ∧ t.files = s.files ∨
        ∃ f, t.files = s.files ++ [f] ∧ d.Unfinished scheme generate news f) := by
  rcases declare_eq_error h with rfl | ⟨rest, f, part, admits, rfl, blank, begun⟩
  · exact ⟨[], List.nil_prefix, List.nil_prefix, Registry.admits_nil _,
      (Registry.extend_nil _).symm, .inl ⟨rfl, rfl⟩⟩
  · have keys := part.map Symbol.key
    rw [FileDescriptor.map_key_symbols rfl rfl] at keys
    exact ⟨f.symbol :: rest, part, keys, admits, rfl, .inr ⟨f, rfl, begun.unfinished blank⟩⟩

/-- A file whose second message has a fault inside its second nested message. -/
def halfFile : FileDescriptor where
  name := "half.proto"
  package := "half"
  messages := [
    { name := "First", nested := [{ name := "Inner" }] },
    { name := "Second"
      nested := [{ name := "Whole" }, { name := "Broken", fields := [{ name := "x" }] }] },
    { name := "Third" }]

/-- All three messages at and inside the second one are registered, and the file lists the first
one. -/
theorem declare_unfinished_halfFile : ∃ t,
    declare .standard true halfFile {} = .error (.missingNumber "half.Second.Broken.x") t ∧
    ∃ news, t.registry = (⟨[]⟩ : Registry Symbol).extend news ∧ news.map Symbol.key =
      [(.file, "half.proto"), (.message, "half.First"), (.message, "half.First.Inner"),
        (.message, "half.Second"), (.message, "half.Second.Whole"),
        (.message, "half.Second.Broken")] ∧
      ∃ f, t.files = [f] ∧ f.messages.length = 1 ∧ halfFile.Unfinished .standard true news f := by
  have run : (match declare .standard true halfFile {} with
      | .ok _ _ => false
      | .error e t => decide (e = .missingNumber "half.Second.Broken.x" ∧
          (t.registry.journal.map fun entry => (entry.kind, entry.key)) =
            [(.file, "half.proto"), (.message, "half.First"), (.message, "half.First.Inner"),
              (.message, "half.Second"), (.message, "half.Second.Whole"),
              (.message, "half.Second.Broken")] ∧
          t.files.map (·.messages.length) = [1])) = true := by decide +kernel
  cases h : declare .standard true halfFile {} with
  | ok u t =>
    rw [h] at run
    exact absurd run Bool.false_ne_true
  | error e t =>
    rw [h] at run
    obtain ⟨rfl, keys, lengths⟩ := of_decide_eq_true run
    obtain ⟨news, -, -, -, registry, files⟩ := declare_unfinished h
    have journal : news.map Symbol.key =
        t.registry.journal.map fun entry => (entry.kind, entry.key) := by
      rw [registry, Registry.extend, List.map_append, List.map_map]
      rfl
    refine ⟨t, rfl, news, registry, journal.trans keys, ?_⟩
    rcases files with ⟨rfl, -⟩ | ⟨f, hf, unfinished⟩
    · cases journal.trans keys
    · rw [hf] at lengths
      exact ⟨f, hf, (List.cons.inj lengths).1, unfinished⟩

end Schema

end Protolink
