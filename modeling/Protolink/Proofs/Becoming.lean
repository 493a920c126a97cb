import Protolink.Proofs.Assembly
import Protolink.Proofs.Outcome

/-!
# What linking makes of any node

A link that fails stops between two writes, and the next link goes on from there, perhaps with a
registry that has grown.  `Becomes` is what holds in any case between a node and what a link leaves
of it: nothing but slots is written, what a slot reads once it reads for ever, and a node whose
slots are coherent stays coherent.

The slots of a field are coherent if its type is set as a whole, and before the message that it
extends.  Nothing weaker is kept: a field with a message and without an enum would be left with both
by a link that fails.
-/

namespace Protolink

variable {σ α : Type}

/-! ## Slots -/

namespace Slot

variable {s t u : Slot α}

/-- What a slot reads is read of the other one as well, and as long as that one reads nothing, both
fail alike. -/
structure Keeps (s t : Slot α) : Prop where
  value : ∀ a, s.get = .ok a → t.get = .ok a
  error : ∀ e, t.get = .error e → s.get = .error e

theorem Keeps.refl (s : Slot α) : s.Keeps s := ⟨fun _ h => h, fun _ h => h⟩

theorem Keeps.trans (h : s.Keeps t) (h' : t.Keeps u) : s.Keeps u :=
  ⟨fun a ha => h'.value a (h.value a ha), fun e he => h.error e (h'.error e he)⟩

/-- An empty slot may be filled. -/
theorem Keeps.fill (h : s.value? = none) (a : α) : s.Keeps { s with value? := some a } := by
  constructor
  · intro b hb
    rw [get_eq_ok_iff, h] at hb
    exact absurd hb nofun
  · intro e he
    exact absurd he nofun

/-- A slot that reads nothing says whose it is and what is missing. -/
def Awaits (s : Slot α) (owner what : String) : Prop :=
  ∀ e, s.get = .error e → e = .notYetResolved owner what

theorem Awaits.of_keeps {owner what : String} (h : s.Keeps t) (hs : s.Awaits owner what) :
    t.Awaits owner what := fun e he => hs e (h.error e he)

/-- A slot that was just made. -/
theorem awaits_empty (owner what : String) : (⟨owner, what, none⟩ : Slot α).Awaits owner what := by
  intro e he
  exact (Except.error.inj he).symm

end Slot

/-- Two steps that are related element by element may be taken at once. -/
theorem forall₂_trans {R : σ → σ → Prop} (trans : ∀ a b c, R a b → R b c → R a c)
    {as bs cs : List σ} (h : List.Forall₂ R as bs) (h' : List.Forall₂ R bs cs) :
    List.Forall₂ R as cs := by
  induction h generalizing cs with
  | nil => exact h'
  | cons hab _ ih =>
    obtain ⟨c, cs, hbc, hbcs, rfl⟩ := List.forall₂_cons_left_iff.mp h'
    exact .cons (trans _ _ _ hab hbc) (ih hbcs)

variable (r : Registry Symbol)

/-! ## Fields -/

namespace Field

/-- The enum and the message of a field are both set or both not, and without them the message that
it extends is not set.  What is not set says so under the name of the field. -/
structure Coherent (f : Field) : Prop where
  enumType : f.enumType.Awaits f.fullName "enum type"
  message : f.message.Awaits f.fullName "message type"
  extendee : f.extendee.Awaits f.fullName "extendee"
  target : f.enumType.isSet = f.message.isSet
  extended : f.extendee.isSet = true → f.enumType.isSet = true

/-- The fields are the same but for references that are open in the first one. -/
structure Keeps (f g : Field) : Prop where
  unlinked : g.unlinked = f.unlinked
  enumType : f.enumType.Keeps g.enumType
  message : f.message.Keeps g.message
  extendee : f.extendee.Keeps g.extendee

/-- What a link may make of a field. -/
structure Becomes (f g : Field) : Prop extends f.Keeps g where
  coherent : f.Coherent → g.Coherent

theorem Becomes.refl (f : Field) : f.Becomes f :=
  ⟨⟨rfl, .refl _, .refl _, .refl _⟩, fun h => h⟩

theorem Becomes.trans (f g k : Field) (h : f.Becomes g) (h' : g.Becomes k) : f.Becomes k where
  unlinked := h'.unlinked.trans h.unlinked
  enumType := h.enumType.trans h'.enumType
  message := h.message.trans h'.message
  extendee := h.extendee.trans h'.extendee
  coherent := fun hf => h'.coherent (h.coherent hf)

/-- The type of a field is set as a whole, because a coherent field has both slots of it empty or
none. -/
theorem setTarget_becomes (t : Option Symbol) : Moves Becomes (setTarget t) := by
  intro f
  rcases Link.leaves_set_set Field.enumType (fun e f => { f with enumType := e }) Field.message
    (fun m f => { f with message := m }) (fun _ _ => rfl) (t.filter (·.kind == .enum))
    (t.filter (·.kind == .message)) f with
    ⟨he, hm, hs⟩ | ⟨he, hm, hs⟩ | hs
  · rw [setTarget, hs]
    have enumType := Slot.Keeps.fill he (t.filter (·.kind == .enum))
    have message := Slot.Keeps.fill hm (t.filter (·.kind == .message))
    refine ⟨⟨rfl, enumType, message, .refl _⟩, fun hf => ?_⟩
    exact ⟨.of_keeps enumType hf.enumType, .of_keeps message hf.message, hf.extendee, rfl,
      fun _ => rfl⟩
  · -- The enum is set alone.  A coherent field has no message without an enum.
    rw [setTarget, hs]
    refine ⟨⟨rfl, .fill he _, .refl _, .refl _⟩, fun hf => ?_⟩
    rw [← hf.target, Slot.isSet, he, Option.isSome_none] at hm
    exact absurd hm Bool.false_ne_true
  · rw [setTarget, hs]
    exact .refl f

/-- The message that a field extends is set after its type. -/
theorem setExtendee_becomes (t : Option Symbol) {f : Field} (h : f.enumType.isSet = true) :
    f.Becomes (leaves (setExtendee t) f) := by
  rcases Link.leaves_set Field.extendee (fun e f => { f with extendee := e }) t f with
    ⟨hx, hs⟩ | ⟨-, hs⟩
  · rw [setExtendee, hs]
    have extendee := Slot.Keeps.fill hx t
    refine ⟨⟨rfl, .refl _, .refl _, extendee⟩, fun hf => ?_⟩
    exact ⟨hf.enumType, hf.message, .of_keeps extendee hf.extendee, hf.target, fun _ => h⟩
  · rw [setExtendee, hs]
    exact .refl f

theorem link_becomes : Moves Becomes (Field.link r) := by
  intro f
  refine Link.moves_determine Becomes.refl _ fun t _ => ?_
  have first := setTarget_becomes t f
  rcases leaves_seq (setTarget t) (fun _ => Link.determine (·.extended r) >>= setExtendee) f with
    ⟨_, g, hg, h⟩ | ⟨e, g, hg, h⟩
  · rw [leaves, hg, final] at first
    obtain ⟨-, rfl⟩ := (setTarget_yields t f g).mp hg
    rw [h]
    refine first.trans _ _ _ (Link.moves_determine Becomes.refl _ fun x _ => ?_)
    exact setExtendee_becomes x rfl
  · rw [leaves, hg, final] at first
    rw [h]
    exact first

end Field

/-! ## Messages -/

/-- What a link may make of what a message holds besides its nested messages. -/
structure MessageBody.Becomes (b c : MessageBody) : Prop where
  unlinked : c.unlinked = b.unlinked
  fields : List.Forall₂ Field.Becomes b.fields c.fields
  extensions : List.Forall₂ Field.Becomes b.extensions c.extensions

theorem forall₂_becomes_refl (fs : List Field) : List.Forall₂ Field.Becomes fs fs :=
  List.forall₂_same.mpr fun f _ => .refl f

theorem unlinked_of_forall₂ {fs gs : List Field} (h : List.Forall₂ Field.Becomes fs gs) :
    gs.map Field.unlinked = fs.map Field.unlinked :=
  map_alike (h.imp fun _ _ hf => hf.unlinked)

namespace MessageBody

theorem Becomes.refl (b : MessageBody) : b.Becomes b :=
  ⟨rfl, forall₂_becomes_refl _, forall₂_becomes_refl _⟩

theorem Becomes.trans (a b c : MessageBody) (h : a.Becomes b) (h' : b.Becomes c) : a.Becomes c where
  unlinked := h'.unlinked.trans h.unlinked
  fields := forall₂_trans Field.Becomes.trans h.fields h'.fields
  extensions := forall₂_trans Field.Becomes.trans h.extensions h'.extensions

theorem link_becomes : Moves Becomes (MessageBody.link r) := by
  have fields := Link.moves_each Field.Becomes.refl (fun _ => true) (Field.link_becomes r)
  refine .seq Becomes.trans (Link.moves_within fields ?_) fun _ =>
    .seq Becomes.trans (Link.moves_within fields ?_) fun _ => Link.moves_edit ?_
  · intro b fs h
    refine ⟨?_, h, forall₂_becomes_refl _⟩
    simp only [unlinked, unlinked_of_forall₂ h]
  · intro b xs h
    refine ⟨?_, forall₂_becomes_refl _, h⟩
    simp only [unlinked, unlinked_of_forall₂ h]
  · intro b
    exact ⟨rfl, forall₂_becomes_refl _, forall₂_becomes_refl _⟩

end MessageBody

namespace Message

/-- What a link may make of a message: one of the same shape, with what it may make of each body at
any depth. -/
structure Becomes (m n : Message) : Prop where
  unlinked : n.unlinked = m.unlinked
  bodies : List.Forall₂ (fun m n => m.toMessageBody.Becomes n.toMessageBody) m.all n.all

theorem Becomes.refl (m : Message) : m.Becomes m :=
  ⟨rfl, List.forall₂_same.mpr fun n _ => .refl n.toMessageBody⟩

theorem Becomes.trans (m n k : Message) (h : m.Becomes n) (h' : n.Becomes k) : m.Becomes k where
  unlinked := h'.unlinked.trans h.unlinked
  bodies := forall₂_trans (R := fun m n : Message => m.toMessageBody.Becomes n.toMessageBody)
    (fun _ _ _ => MessageBody.Becomes.trans _ _ _) h.bodies h'.bodies

theorem bodies_of_forall₂ {ms ns : List Message} (h : List.Forall₂ Becomes ms ns) :
    List.Forall₂ (fun m n => m.toMessageBody.Becomes n.toMessageBody) (allOf ms) (allOf ns) := by
  rw [allOf_eq_flatMap, allOf_eq_flatMap]
  exact List.rel_flatMap h fun _ _ hm => hm.bodies

theorem Becomes.of_parts {b c : MessageBody} {ms ns : List Message} (h : b.Becomes c)
    (hs : List.Forall₂ Becomes ms ns) : Becomes ⟨b, ms⟩ ⟨c, ns⟩ := by
  constructor
  · rw [unlinked_mk, unlinked_mk, h.unlinked, map_alike (hs.imp fun _ _ hm => hm.unlinked)]
  · rw [all, all]
    exact .cons h (bodies_of_forall₂ hs)

mutual

theorem link_becomes : ∀ m : Message, m.Becomes (leaves (Message.link r) m)
  | ⟨body, nested⟩ => Link.related_both (link_mk r body nested)
    (fun _ _ hnested hbody => .of_parts hbody hnested) (MessageBody.Becomes.refl body)
    (linkNested_becomes body nested) (MessageBody.link_becomes r body)

theorem linkNested_becomes (body : MessageBody) : ∀ ms : List Message,
    List.Forall₂ Becomes ms (leaves (Message.linkNested r body) ms)
  | [] => .nil
  | m :: ms => Link.related_both (linkNested_cons r body m ms) (fun _ _ hm hms => .cons hm hms)
    (List.forall₂_same.mpr fun m _ => .refl m)
    (related_ite Becomes.refl (body.lists m.toMessageBody) (link_becomes m))
    (linkNested_becomes body ms)

end

end Message

/-! ## Methods and services -/

namespace Method

/-- The types of a method are both set or both not.  What is not set says so under the name of the
method. -/
structure Coherent (m : Method) : Prop where
  input : m.input.Awaits m.fullName "input"
  output : m.output.Awaits m.fullName "output"
  types : m.input.isSet = m.output.isSet

/-- The methods are the same but for types that are open in the first one. -/
structure Keeps (m n : Method) : Prop where
  unlinked : n.unlinked = m.unlinked
  input : m.input.Keeps n.input
  output : m.output.Keeps n.output

/-- What a link may make of a method. -/
structure Becomes (m n : Method) : Prop extends m.Keeps n where
  coherent : m.Coherent → n.Coherent

theorem Becomes.refl (m : Method) : m.Becomes m := ⟨⟨rfl, .refl _, .refl _⟩, fun h => h⟩

theorem Becomes.trans (m n k : Method) (h : m.Becomes n) (h' : n.Becomes k) : m.Becomes k where
  unlinked := h'.unlinked.trans h.unlinked
  input := h.input.trans h'.input
  output := h.output.trans h'.output
  coherent := fun hm => h'.coherent (h.coherent hm)

/-- Both types of a method are set, because of a coherent method both are empty or none is. -/
theorem setTypes_becomes (i o : Symbol) : Moves Becomes (setTypes i o) := by
  intro m
  rcases Link.leaves_set_set Method.input (fun input m => { m with input }) Method.output
    (fun output m => { m with output }) (fun _ _ => rfl) i o m with
    ⟨hi, ho, hs⟩ | ⟨hi, ho, hs⟩ | hs
  · rw [setTypes, hs]
    have input := Slot.Keeps.fill hi i
    have output := Slot.Keeps.fill ho o
    refine ⟨⟨rfl, input, output⟩, fun hm => ?_⟩
    exact ⟨.of_keeps input hm.input, .of_keeps output hm.output, rfl⟩
  · rw [setTypes, hs]
    refine ⟨⟨rfl, .fill hi _, .refl _⟩, fun hm => ?_⟩
    rw [← hm.types, Slot.isSet, hi, Option.isSome_none] at ho
    exact absurd ho Bool.false_ne_true
  · rw [setTypes, hs]
    exact .refl m

theorem link_becomes (scope : String) : Moves Becomes (Method.link r scope) := by
  intro m
  refine Link.moves_determine Becomes.refl _ fun i _ => ?_
  exact Link.moves_determine Becomes.refl _ fun o _ => setTypes_becomes i o m

end Method

/-- What a link may make of a service. -/
structure Service.Becomes (s t : Service) : Prop where
  unlinked : t.unlinked = s.unlinked
  methods : List.Forall₂ Method.Becomes s.methods t.methods

namespace Service

theorem Becomes.refl (s : Service) : s.Becomes s := ⟨rfl, List.forall₂_same.mpr fun m _ => .refl m⟩

theorem Becomes.trans (s t v : Service) (h : s.Becomes t) (h' : t.Becomes v) : s.Becomes v where
  unlinked := h'.unlinked.trans h.unlinked
  methods := forall₂_trans Method.Becomes.trans h.methods h'.methods

theorem link_becomes : Moves Becomes (Service.link r) := by
  intro s
  have methods := Link.moves_each Method.Becomes.refl (fun _ => true)
    (Method.link_becomes r s.fullName)
  refine Link.moves_within methods (fun s ms h => ?_) s
  refine ⟨?_, h⟩
  simp only [unlinked, map_alike (h.imp fun _ _ hm => hm.unlinked)]

end Service

/-! ## Files -/

namespace File

/-- What a link may make of a file. -/
structure Becomes (f g : File) : Prop where
  unlinked : g.unlinked = f.unlinked
  messages : List.Forall₂ Message.Becomes f.ownMessages g.ownMessages
  services : List.Forall₂ Service.Becomes f.ownServices g.ownServices
  extensions : List.Forall₂ Field.Becomes f.extensions g.extensions

theorem Becomes.refl (f : File) : f.Becomes f where
  unlinked := rfl
  messages := List.forall₂_same.mpr fun m _ => .refl m
  services := List.forall₂_same.mpr fun s _ => .refl s
  extensions := forall₂_becomes_refl _

theorem Becomes.trans (f g k : File) (h : f.Becomes g) (h' : g.Becomes k) : f.Becomes k where
  unlinked := h'.unlinked.trans h.unlinked
  messages := forall₂_trans Message.Becomes.trans h.messages h'.messages
  services := forall₂_trans Service.Becomes.trans h.services h'.services
  extensions := forall₂_trans Field.Becomes.trans h.extensions h'.extensions

/-- Linking a file changes nothing in it but references and what they decide: its imports and which
messages it lists. -/
theorem link_becomes : Moves Becomes (File.link r) := by
  have messages := Link.moves_each Message.Becomes.refl (·.isComplete) (Message.link_becomes r)
  have services := Link.moves_each Service.Becomes.refl (·.isComplete) (Service.link_becomes r)
  have extensions := Link.moves_each Field.Becomes.refl (fun _ => true) (Field.link_becomes r)
  intro f
  refine Moves.seq (R := Becomes) Becomes.trans (t := MonadState.get) Becomes.refl (fun g => ?_) f
  refine .seq Becomes.trans (.forM Becomes.refl Becomes.trans (fun n => ?_) _) fun _ =>
    .seq Becomes.trans (Link.moves_within messages ?_) fun _ =>
      .seq Becomes.trans (Link.moves_within services ?_) fun _ =>
        Link.moves_within extensions ?_
  · refine Link.moves_update Becomes.refl fun f f' h => ?_
    obtain ⟨-, rfl⟩ := (File.addDependency_eq_ok_iff r).mp h
    exact { Becomes.refl f with unlinked := rfl }
  · intro f ms h
    refine { Becomes.refl f with unlinked := ?_, messages := h }
    simp only [unlinked, map_alike (h.imp fun _ _ hm => hm.unlinked)]
  · intro f ss h
    refine { Becomes.refl f with unlinked := ?_, services := h }
    simp only [unlinked, map_alike (h.imp fun _ _ hs => hs.unlinked)]
  · intro f xs h
    refine { Becomes.refl f with unlinked := ?_, extensions := h }
    simp only [unlinked, unlinked_of_forall₂ h]

end File

/-! ## Schemas -/

namespace Schema

/-- What a link may make of a schema. -/
structure Becomes (s t : Schema) : Prop where
  registry : t.registry = s.registry
  files : List.Forall₂ File.Becomes s.files t.files

theorem Becomes.refl (s : Schema) : s.Becomes s := ⟨rfl, List.forall₂_same.mpr fun f _ => .refl f⟩

theorem linkWanted_becomes (wanted : File → Bool) : Moves Becomes (linkWanted wanted) := by
  intro s
  have left : leaves (linkWanted wanted) s =
      { s with files := leaves (Link.each wanted (File.link s.registry)) s.files } := by
    unfold leaves linkWanted
    exact Link.leaves_within _ _ _ s
  rw [left]
  exact ⟨rfl, Link.moves_each File.Becomes.refl wanted (File.link_becomes s.registry) s.files⟩

theorem linkAll_becomes : Moves Becomes linkAll := by
  intro s
  rw [leaves, linkAll_eq]
  exact linkWanted_becomes _ s

theorem linkFile_becomes (name : String) : Moves Becomes (linkFile name) := by
  intro s
  cases h : s.registry.lookup .file name with
  | none =>
    simp only [leaves, linkFile, h, final]
    exact .refl s
  | some t =>
    rw [leaves, linkFile_eq h]
    exact linkWanted_becomes _ s

end Schema

end Protolink
