import Mathlib.Tactic.MkIffOfInductiveProp
import Protolink.Link
import Protolink.Proofs.Yields

/-!
# What linking makes of nodes

The linked forms of nodes, as functions of a registry, and the conditions under which they come
about: all references that are followed are still open, and all of them mean something.  The main
statement is `File.link_yields`; it holds of every file, also of one that is incomplete or that was
linked before.

Linked forms ask the registry by look-up alone, so registries with the same look-up make the same
of a file.
-/

namespace Protolink

variable (r : Registry Symbol)

theorem Slot.set_eq_ok_iff {α : Type} {s t : Slot α} {a : α} :
    s.set a = .ok t ↔ s.value? = none ∧ t = { s with value? := some a } := by
  unfold set
  cases s.value? <;> simp [eq_comm]

theorem Slot.get_eq_ok_iff {α : Type} {s : Slot α} {a : α} : s.get = .ok a ↔ s.value? = some a := by
  unfold get
  cases s.value? <;> simp

/-- A chain of two steps succeeds if both do. -/
theorem Except.bind_eq_ok_iff {ε α β : Type} {x : Except ε α} {k : α → Except ε β} {b : β} :
    (x >>= k) = .ok b ↔ ∃ a, x = .ok a ∧ k a = .ok b := by
  cases x <;> simp [bind, Except.bind]

/-- A slot of a node is set exactly if it is empty. -/
theorem Link.yields_set {σ α : Type} (slot : σ → Slot α) (put : Slot α → σ → σ) (a : α) (s : σ) :
    Yields (Link.set slot put a) s ((slot s).value? = none)
      (put { slot s with value? := some a } s) := by
  refine Link.yields_update fun s' => ?_
  simp only [Except.bind_eq_ok_iff, Slot.set_eq_ok_iff, pure, Except.pure, Except.ok.injEq]
  constructor
  · rintro ⟨_, ⟨h, rfl⟩, rfl⟩
    exact ⟨h, rfl⟩
  · rintro ⟨h, rfl⟩
    exact ⟨_, ⟨h, rfl⟩, rfl⟩

/-! ## Fields -/

namespace Field

/-- No reference of the field is set. -/
@[mk_iff]
structure IsOpen (f : Field) : Prop where
  enumType : f.enumType.value? = none
  message : f.message.value? = none
  extendee : f.extendee.value? = none

/-- All references of the field mean something in a registry. -/
@[mk_iff]
structure Resolves (f : Field) : Prop where
  target : ∀ kind, f.kind.targetKind? = some kind →
    f.typeName ≠ "" ∧ (r.resolve [kind] f.scope f.typeName).isSome
  extendee : ∀ e ∈ f.extendeeName, e ≠ "" → (r.resolve [.message] f.scope e).isSome

/-- What the type of a field means, if its kind has one. -/
def targetSymbol? (f : Field) : Option Symbol :=
  f.kind.targetKind?.bind fun kind => r.resolve [kind] f.scope f.typeName

/-- What the message that a field extends means, if the field says that it extends one. -/
def extendedSymbol? (f : Field) : Option Symbol :=
  (f.extendeeName.filter (· ≠ "")).bind fun e => r.resolve [.message] f.scope e

def linked (f : Field) : Field :=
  { f with
    enumType := { f.enumType with value? := some ((f.targetSymbol? r).filter (·.kind == .enum)) }
    message := { f.message with value? := some ((f.targetSymbol? r).filter (·.kind == .message)) }
    extendee := { f.extendee with value? := some (f.extendedSymbol? r) } }

theorem target_eq_ok_iff {f : Field} {t : Option Symbol} :
    f.target r = .ok t ↔
      (∀ kind, f.kind.targetKind? = some kind →
        f.typeName ≠ "" ∧ (r.resolve [kind] f.scope f.typeName).isSome) ∧
      f.targetSymbol? r = t := by
  unfold target targetSymbol?
  cases f.kind.targetKind? with
  | none => simp
  | some kind =>
    by_cases hn : f.typeName = ""
    · simp [hn]
    · cases h : r.resolve [kind] f.scope f.typeName <;> simp [hn, h]

theorem extended_eq_ok_iff {f : Field} {t : Option Symbol} :
    f.extended r = .ok t ↔
      (∀ e ∈ f.extendeeName, e ≠ "" → (r.resolve [.message] f.scope e).isSome) ∧
      f.extendedSymbol? r = t := by
  unfold extended extendedSymbol?
  cases f.extendeeName with
  | none => simp
  | some e =>
    by_cases he : e = ""
    · simp [he, Option.filter]
    · cases h : r.resolve [.message] f.scope e <;> simp [he, h, Option.filter]

/-- A type is set exactly if neither the enum nor the message is. -/
theorem setTarget_yields (t : Option Symbol) (f : Field) :
    Yields (setTarget t) f (f.enumType.value? = none ∧ f.message.value? = none)
      { f with
        enumType := { f.enumType with value? := some (t.filter (·.kind == .enum)) }
        message := { f.message with value? := some (t.filter (·.kind == .message)) } } :=
  (Link.yields_set _ _ _ f).seq (Link.yields_set _ _ _ _)

theorem setExtendee_yields (t : Option Symbol) (f : Field) :
    Yields (setExtendee t) f (f.extendee.value? = none)
      { f with extendee := { f.extendee with value? := some t } } :=
  Link.yields_set _ _ t f

/-- A field is linked exactly if nothing of it is set and both its type and the message that it
extends mean something, as far as it has them. -/
theorem link_yields (f : Field) :
    Yields (Field.link r) f (f.IsOpen ∧ f.Resolves r) (f.linked r) := by
  have target (f : Field) (b : Option Symbol) := (target_eq_ok_iff r (f := f) (t := b)).trans
    (and_congr_right fun _ => eq_comm)
  have extended (f : Field) (b : Option Symbol) := (extended_eq_ok_iff r (f := f) (t := b)).trans
    (and_congr_right fun _ => eq_comm)
  refine Yields.congr (Link.yields_determine (target f) ((setTarget_yields _ f).seq
    (Link.yields_determine (extended _) (setExtendee_yields _ _)))) ?_ rfl
  rw [isOpen_iff, resolves_iff]
  simp only [scope]
  tauto

/-- Registries with the same look-up make the same of a field. -/
theorem linked_congr {r r' : Registry Symbol} (h : r.lookup = r'.lookup) :
    linked r = linked r' := by
  funext f
  simp only [linked, targetSymbol?, extendedSymbol?, Registry.resolve_congr h]

end Field

/-! ## Messages -/

namespace MessageBody

/-- The references of all fields and extensions of a message are open and mean something. -/
@[mk_iff]
structure Linkable (b : MessageBody) : Prop where
  fields : ∀ f ∈ b.fields, f.IsOpen ∧ f.Resolves r
  extensions : ∀ f ∈ b.extensions, f.IsOpen ∧ f.Resolves r

def linked (b : MessageBody) : MessageBody :=
  { b with
    fields := b.fields.map (Field.linked r)
    extensions := b.extensions.map (Field.linked r)
    hidesEntries := true }

theorem link_yields (b : MessageBody) :
    Yields (MessageBody.link r) b (b.Linkable r) (b.linked r) := by
  have fields := Link.yields_within (fun b : MessageBody => b.fields)
    (fun fs b => { b with fields := fs })
    (Link.yields_each (fun _ => true) (Field.link_yields r) b.fields)
  have extensions := fun b : MessageBody => Link.yields_within (fun b : MessageBody => b.extensions)
    (fun fs b => { b with extensions := fs })
    (Link.yields_each (fun _ => true) (Field.link_yields r) b.extensions)
  refine (fields.seq ((extensions _).seq (Link.yields_edit _ _))).congr ?_ ?_
  · simp [linkable_iff]
  · simp [linked]

theorem linked_congr {r r' : Registry Symbol} (h : r.lookup = r'.lookup) :
    linked r = linked r' := by
  funext b
  simp only [linked, Field.linked_congr h]

end MessageBody

namespace Message

mutual

/-- Changes the bodies of a message and of those listed inside it. -/
def mapListed (g : MessageBody → MessageBody) : Message → Message
  | ⟨body, nested⟩ => ⟨g body, mapNested g body nested⟩

/-- Changes the bodies of the messages nested in `body` that are listed, and inside them. -/
def mapNested (g : MessageBody → MessageBody) (body : MessageBody) : List Message → List Message
  | [] => []
  | m :: ms => (if body.lists m.toMessageBody then m.mapListed g else m) :: mapNested g body ms

end

mutual

/-- The bodies of a message and of those listed inside it have a property. -/
def ForListed (P : MessageBody → Prop) : Message → Prop
  | ⟨body, nested⟩ => ForNested P body nested ∧ P body

/-- The bodies of the messages nested in `body` that are listed, and inside them. -/
def ForNested (P : MessageBody → Prop) (body : MessageBody) : List Message → Prop
  | [] => True
  | m :: ms => (body.lists m.toMessageBody → m.ForListed P) ∧ ForNested P body ms

end

/-- The nested messages are linked before the body. -/
theorem link_mk (body : MessageBody) (nested : List Message) : Message.link r ⟨body, nested⟩ =
    Link.both (fun nested body => ⟨body, nested⟩) (linkNested r body) nested
      (MessageBody.link r) body := by
  simp only [link, Link.both]
  cases linkNested r body nested with
  | error e nested' => rfl
  | ok _ nested' => cases MessageBody.link r body <;> rfl

theorem linkNested_cons (body : MessageBody) (m : Message) (ms : List Message) :
    linkNested r body (m :: ms) = Link.both List.cons
      (fun m => if body.lists m.toMessageBody then m.link r else .ok () m) m
      (linkNested r body) ms := by
  simp only [linkNested, Link.both]
  cases if body.lists m.toMessageBody then m.link r else .ok () m with
  | error e m' => rfl
  | ok _ m' => cases linkNested r body ms <;> rfl

mutual

theorem link_yields : ∀ m : Message,
    Yields (Message.link r) m (m.ForListed (MessageBody.Linkable r))
      (m.mapListed (MessageBody.linked r))
  | ⟨body, nested⟩ => by
    rw [ForListed, mapListed]
    exact (Link.yields_both (link_mk r body nested) (linkNested_yields body nested)
      (MessageBody.link_yields r body)).congr Iff.rfl rfl

theorem linkNested_yields (body : MessageBody) : ∀ ms : List Message,
    Yields (Message.linkNested r body) ms (ForNested (MessageBody.Linkable r) body ms)
      (mapNested (MessageBody.linked r) body ms)
  | [] => Yields.pure
  | m :: ms => by
    rw [ForNested, mapNested]
    exact (Link.yields_both (linkNested_cons r body m ms)
      (Yields.ite (body.lists m.toMessageBody) (link_yields m))
      (linkNested_yields body ms)).congr Iff.rfl rfl

end

/-- The body of a message is changed alone, whatever becomes of the messages inside. -/
@[simp] theorem toMessageBody_mapListed (g : MessageBody → MessageBody) (m : Message) :
    (m.mapListed g).toMessageBody = g m.toMessageBody := by
  cases m
  rw [mapListed]

/-! ### Trees in which everything is listed -/

/-- A message is read to the end, and so are all messages inside it, and none of them hides its map
entries. -/
def Fresh (m : Message) : Prop := ∀ n ∈ m.all, n.isComplete = true ∧ n.hidesEntries = false

theorem lists_of_fresh {body nested : MessageBody} (hb : body.hidesEntries = false)
    (hn : nested.isComplete = true) : body.lists nested := by
  simp [MessageBody.lists, hb, hn]

theorem forall_mem_all_iff {P : Message → Prop} {m : Message} :
    (∀ n ∈ m.all, P n) ↔ P m ∧ ∀ n ∈ allOf m.nested, P n := by
  cases m
  rw [all, List.forall_mem_cons]

theorem fresh_iff {m : Message} :
    m.Fresh ↔ (m.isComplete = true ∧ m.hidesEntries = false) ∧
      ∀ n ∈ allOf m.nested, n.isComplete = true ∧ n.hidesEntries = false := forall_mem_all_iff

theorem allOf_eq_flatMap (ms : List Message) : allOf ms = ms.flatMap all := by
  induction ms with
  | nil => rfl
  | cons m ms ih => rw [allOf, ih, List.flatMap_cons]

mutual

theorem forListed_iff (P : MessageBody → Prop) : ∀ m : Message, m.Fresh →
    (m.ForListed P ↔ ∀ n ∈ m.all, P n.toMessageBody)
  | ⟨body, nested⟩, h => by
    obtain ⟨⟨-, hb⟩, hn⟩ := fresh_iff.mp h
    rw [ForListed, forall_mem_all_iff, forNested_iff P body hb nested hn, and_comm]

theorem forNested_iff (P : MessageBody → Prop) (body : MessageBody)
    (hb : body.hidesEntries = false) : ∀ ms : List Message,
    (∀ n ∈ allOf ms, n.isComplete = true ∧ n.hidesEntries = false) →
    (ForNested P body ms ↔ ∀ n ∈ allOf ms, P n.toMessageBody)
  | [], _ => by simp [ForNested, allOf]
  | m :: ms, h => by
    rw [allOf, List.forall_mem_append] at h
    have hm : body.lists m.toMessageBody := lists_of_fresh hb (fresh_iff.mp h.1).1.1
    simp only [ForNested, allOf, hm, true_imp_iff, List.forall_mem_append,
      forListed_iff P m h.1, forNested_iff P body hb ms h.2]

end

mutual

/-- Of a tree in which everything is listed, every message is changed. -/
theorem all_mapListed (g : MessageBody → MessageBody) : ∀ m : Message, m.Fresh →
    (m.mapListed g).all = m.all.map (mapListed g)
  | ⟨body, nested⟩, h => by
    obtain ⟨⟨-, hb⟩, hn⟩ := fresh_iff.mp h
    rw [mapListed, all, all, List.map_cons, allOf_mapNested g body hb nested hn, mapListed]

theorem allOf_mapNested (g : MessageBody → MessageBody) (body : MessageBody)
    (hb : body.hidesEntries = false) : ∀ ms : List Message,
    (∀ n ∈ allOf ms, n.isComplete = true ∧ n.hidesEntries = false) →
    allOf (mapNested g body ms) = (allOf ms).map (mapListed g)
  | [], _ => rfl
  | m :: ms, h => by
    rw [allOf, List.forall_mem_append] at h
    have hm : body.lists m.toMessageBody := lists_of_fresh hb (fresh_iff.mp h.1).1.1
    simp only [mapNested, allOf, hm, if_true, List.map_append, all_mapListed g m h.1,
      allOf_mapNested g body hb ms h.2]

end

end Message

/-! ## Methods and services -/

namespace Method

/-- Both types of the method are open, and both mean something in the scope. -/
@[mk_iff]
structure Linkable (scope : String) (m : Method) : Prop where
  open_input : m.input.value? = none
  open_output : m.output.value? = none
  input : m.inputName ≠ "" ∧ (r.resolve [.message] scope m.inputName).isSome
  output : m.outputName ≠ "" ∧ (r.resolve [.message] scope m.outputName).isSome

def linked (scope : String) (m : Method) : Method :=
  { m with
    input := { m.input with value? := r.resolve [.message] scope m.inputName }
    output := { m.output with value? := r.resolve [.message] scope m.outputName } }

theorem typeOf_eq_ok_iff {m : Method} {scope role typeName : String} {s : Symbol} :
    m.typeOf r scope role typeName = .ok s ↔
      typeName ≠ "" ∧ r.resolve [.message] scope typeName = some s := by
  unfold typeOf
  by_cases hn : typeName = ""
  · simp [hn]
  · cases h : r.resolve [.message] scope typeName <;> simp [hn]

theorem setTypes_yields (i o : Symbol) (m : Method) :
    Yields (setTypes i o) m (m.input.value? = none ∧ m.output.value? = none)
      { m with
        input := { m.input with value? := some i }
        output := { m.output with value? := some o } } :=
  (Link.yields_set _ _ i m).seq (Link.yields_set _ _ o _)

theorem link_yields (scope : String) (m : Method) :
    Yields (Method.link r scope) m (m.Linkable r scope) (m.linked r scope) := by
  intro n
  simp only [link, Yields.bind_eq_ok_iff, Link.determine_eq_ok_iff, typeOf_eq_ok_iff,
    linkable_iff, linked]
  constructor
  · rintro ⟨i, _, ⟨⟨hi, hri⟩, rfl⟩, o, _, ⟨⟨ho, hro⟩, rfl⟩, hset⟩
    obtain ⟨⟨hoi, hoo⟩, rfl⟩ := (setTypes_yields i o _ n).mp hset
    exact ⟨⟨hoi, hoo, ⟨hi, by simp [hri]⟩, ho, by simp [hro]⟩, by rw [hri, hro]⟩
  · rintro ⟨⟨hoi, hoo, ⟨hi, hri⟩, ho, hro⟩, rfl⟩
    obtain ⟨i, hi'⟩ := Option.isSome_iff_exists.mp hri
    obtain ⟨o, ho'⟩ := Option.isSome_iff_exists.mp hro
    refine ⟨i, m, ⟨⟨hi, hi'⟩, rfl⟩, o, m, ⟨⟨ho, ho'⟩, rfl⟩, (setTypes_yields i o m _).mpr ?_⟩
    exact ⟨⟨hoi, hoo⟩, by rw [hi', ho']⟩

theorem linked_congr {r r' : Registry Symbol} (h : r.lookup = r'.lookup) :
    linked r = linked r' := by
  funext scope m
  simp only [linked, Registry.resolve_congr h]

end Method

namespace Service

def linked (s : Service) : Service :=
  { s with methods := s.methods.map (Method.linked r s.fullName) }

theorem link_yields (s : Service) :
    Yields (Service.link r) s (∀ m ∈ s.methods, m.Linkable r s.fullName) (s.linked r) := by
  have methods := Link.yields_within (fun s : Service => s.methods)
    (fun ms s => { s with methods := ms })
    (Link.yields_each (fun _ => true) (Method.link_yields r s.fullName) s.methods)
  exact fun t => (methods.congr (by simp) (by simp [linked])) t

end Service

/-! ## Files -/

namespace File

/-- All references of a file are open and mean something, and so do the names of its imports. -/
@[mk_iff]
structure Linkable (f : File) : Prop where
  dependencies : ∀ n ∈ f.dependencyNames, (r.lookup .file n).isSome
  messages : ∀ m ∈ f.ownMessages, m.isComplete → m.ForListed (MessageBody.Linkable r)
  services : ∀ s ∈ f.ownServices, s.isComplete → ∀ m ∈ s.methods, m.Linkable r s.fullName
  extensions : ∀ x ∈ f.extensions, x.IsOpen ∧ x.Resolves r

def linked (f : File) : File :=
  { f with
    dependencies := f.dependencies ++ f.dependencyNames.filterMap (r.lookup .file)
    ownMessages := f.ownMessages.map fun m =>
      if m.isComplete then m.mapListed (MessageBody.linked r) else m
    ownServices := f.ownServices.map fun s => if s.isComplete then s.linked r else s
    extensions := f.extensions.map (Field.linked r) }

theorem addDependency_eq_ok_iff {name : String} {f g : File} :
    f.addDependency r name = .ok g ↔ (r.lookup .file name).isSome ∧
      g = { f with dependencies := f.dependencies ++ (r.lookup .file name).toList } := by
  unfold addDependency
  cases r.lookup .file name <;> simp [eq_comm]

theorem addDependencies_yields (names : List String) (f : File) :
    Yields (names.forM fun name => Link.update (File.addDependency r name)) f
      (∀ n ∈ names, (r.lookup .file n).isSome)
      { f with dependencies := f.dependencies ++ names.filterMap (r.lookup .file) } := by
  have step (n : String) (f : File) : Yields (Link.update (File.addDependency r n)) f
      (r.lookup .file n).isSome
      { f with dependencies := f.dependencies ++ (r.lookup .file n).toList } :=
    Link.yields_update fun _ => addDependency_eq_ok_iff r
  refine (Yields.forM step names f).congr Iff.rfl ?_
  induction names generalizing f with
  | nil => simp
  | cons n names ih =>
    rw [List.foldl_cons, ih]
    cases h : r.lookup .file n <;> simp [h]

theorem link_yields (f : File) : Yields (File.link r) f (f.Linkable r) (f.linked r) := by
  have messages (f : File) := Link.yields_within (fun f : File => f.ownMessages)
    (fun ms f => { f with ownMessages := ms })
    (Link.yields_each (·.isComplete) (Message.link_yields r) f.ownMessages)
  have services (f : File) := Link.yields_within (fun f : File => f.ownServices)
    (fun ss f => { f with ownServices := ss })
    (Link.yields_each (·.isComplete) (Service.link_yields r) f.ownServices)
  have extensions (f : File) := Link.yields_within (fun f : File => f.extensions)
    (fun xs f => { f with extensions := xs })
    (Link.yields_each (fun _ => true) (Field.link_yields r) f.extensions)
  have rest := (addDependencies_yields r f.dependencyNames f).seq
    ((messages _).seq ((services _).seq (extensions _)))
  refine fun g => (rest.congr ?_ ?_) g
  · simp [linkable_iff]
  · simp [linked]

/-- A file in which every message and every service is listed. -/
structure Fresh (f : File) : Prop where
  messages : ∀ m ∈ f.ownMessages, m.Fresh
  services : ∀ s ∈ f.ownServices, s.isComplete

theorem Fresh.messages_all {f : File} (h : f.Fresh) :
    ∀ n ∈ f.allMessages, n.isComplete = true ∧ n.hidesEntries = false := by
  rw [allMessages, Message.allOf_eq_flatMap, List.forall_mem_flatMap]
  exact h.messages

/-- Of a file in which everything is listed, every message is linked, at any depth. -/
theorem allMessages_linked {f : File} (h : f.Fresh) :
    (f.linked r).allMessages = f.allMessages.map (Message.mapListed (MessageBody.linked r)) := by
  rw [allMessages, allMessages, Message.allOf_eq_flatMap, Message.allOf_eq_flatMap, linked,
    List.flatMap_map, List.map_flatMap]
  refine List.flatMap_congr fun m hm => ?_
  rw [if_pos (Message.fresh_iff.mp (h.messages m hm)).1.1,
    Message.all_mapListed _ m (h.messages m hm)]

theorem ownServices_linked {f : File} (h : f.Fresh) :
    (f.linked r).ownServices = f.ownServices.map (Service.linked r) :=
  List.map_congr_left fun s hs => if_pos (h.services s hs)

/-- Registries with the same look-up make the same of a file. -/
theorem linked_congr {r r' : Registry Symbol} (h : r.lookup = r'.lookup) :
    linked r = linked r' := by
  funext f
  simp only [linked, Service.linked, h, Field.linked_congr h, MessageBody.linked_congr h,
    Method.linked_congr h]

@[simp] theorem name_linked (f : File) : (f.linked r).name = f.name := rfl

end File

end Protolink
