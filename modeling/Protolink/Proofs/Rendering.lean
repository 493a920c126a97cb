import Protolink.Proofs.Labels
import Protolink.Proofs.Ownership
import Protolink.Proofs.Unambiguous
import Protolink.Proofs.Unrelated

/-!
# Listings of linked files

To print a file, references are read, and reading may fail.  In a schema that files make no
reference is found open, and every one leads to a node.  So what is shown of a file can be read off
the nodes: `shown` does this, and it cannot fail.  The only fault that is left is a map entry with
less than two fields, and `outline_gives` says that printing fails exactly for files that list a
field with such a type.

Main statement: `write_lines`, about the file that is written, line by line.
-/

namespace Protolink

/-! ## Computations with one fault -/

/-- A computation has a result under a condition, and otherwise it finds a map entry too short. -/
structure Gives {α : Type} (x : Except Error α) (P : Prop) (a : α) : Prop where
  ok : P → x = .ok a
  error : ¬P → x = .error .mapEntryTooShort

namespace Gives

variable {α β : Type} {P Q : Prop} {a : α} {b : β} {x : Except Error α}

theorem of_eq_ok (h : x = .ok a) : Gives x True a := ⟨fun _ => h, fun hn => absurd trivial hn⟩

theorem congr (h : Gives x P a) (hPQ : P ↔ Q) : Gives x Q a := propext hPQ ▸ h

theorem bind {k : α → Except Error β} (h : Gives x P a) (hk : Gives (k a) Q b) :
    Gives (x >>= k) (P ∧ Q) b := by
  constructor
  · rintro ⟨hP, hQ⟩
    rw [h.ok hP]
    exact hk.ok hQ
  · intro hn
    by_cases hP : P
    · rw [h.ok hP]
      exact hk.error fun hQ => hn ⟨hP, hQ⟩
    · rw [h.error hP]
      rfl

theorem map {g : α → β} (h : Gives x P a) : Gives (do return g (← x)) P (g a) := by
  refine (h.bind ?_).congr (iff_of_eq (and_true P))
  exact of_eq_ok rfl

theorem mapM {P : α → Prop} {g : α → β} {step : α → Except Error β} {as : List α}
    (h : ∀ a ∈ as, Gives (step a) (P a) (g a)) :
    Gives (as.mapM step) (∀ a ∈ as, P a) (as.map g) := by
  induction as with
  | nil => exact (of_eq_ok rfl).congr (iff_of_true trivial (List.forall_mem_nil _))
  | cons a as ih =>
    obtain ⟨ha, has⟩ := List.forall_mem_cons.mp h
    rw [List.mapM_cons]
    exact (ha.bind (ih has).map).congr List.forall_mem_cons.symm

theorem mapM_eq_ok {g : α → β} {step : α → Except Error β} {as : List α}
    (h : ∀ a ∈ as, step a = .ok (g a)) : as.mapM step = .ok (as.map g) :=
  (mapM fun a ha => of_eq_ok (h a ha)).ok fun _ _ => trivial

theorem exists_ok_iff (h : Gives x P a) : (∃ a, x = .ok a) ↔ P := by
  constructor
  · rintro ⟨a', ha'⟩
    by_contra hn
    rw [h.error hn] at ha'
    cases ha'
  · exact fun hP => ⟨a, h.ok hP⟩

theorem eq_of_ok {a' : α} (h : Gives x P a) (ha' : x = .ok a') : a' = a := by
  have hP : P := h.exists_ok_iff.mp ⟨a', ha'⟩
  rw [h.ok hP] at ha'
  exact (Except.ok.inj ha').symm

end Gives

/-! ## Reading references -/

/-- What is found under the name that a reference has. -/
def Slot.follow? {β : Type} (find : String → Option β) (slot : Slot (Option Symbol)) : Option β :=
  slot.value?.join.bind fun t => find t.fullName

namespace Schema

variable (s : Schema)

/-- The map entry that is the type of a field, if it is a map. -/
def entryOf? (x : Field) : Option Message := (x.message.follow? s.message?).filter (·.isMapEntry)

/-- A field that is a map has an entry with a field for the keys and one for the values. -/
def Paired (x : Field) : Prop := ∀ e ∈ s.entryOf? x, 2 ≤ e.fields.length

instance (x : Field) : Decidable (s.Paired x) := inferInstanceAs (Decidable (∀ e ∈ _, _))

/-- The files that a file imports. -/
def importsOf (f : File) : List File := f.dependencies.filterMap fun d => s.file? d.fullName

end Schema

namespace Listing

variable (s : Schema)

/-- The kinds of the first two fields of a map entry. -/
def kindsOf? (e : Message) : Option (FieldKind × FieldKind) :=
  match e.fields with
  | key :: value :: _ => some (key.kind, value.kind)
  | _ => none

def fieldShown (owner : MessageBody) (x : Field) : FieldOutline where
  name := x.fullName
  kind := x.kind
  cardinality := x.cardinality
  message := ((x.message.follow? s.message?).map (·.fullName)).getD "None"
  enumType := ((x.enumType.follow? s.enum?).map (·.fullName)).getD "None"
  map? := (s.entryOf? x).bind kindsOf?
  oneof? := (x.oneof.bind (owner.oneofs[·]?)).map (·.name)

mutual

def messageShown : Message → MessageOutline
  | ⟨body, nested⟩ =>
    ⟨body.fullName, body.fields.map (fieldShown s body), nestedShown body nested,
      body.enums.map enumOutline⟩

/-- What is shown of those messages nested in `body` that are listed. -/
def nestedShown (body : MessageBody) : List Message → List MessageOutline
  | [] => []
  | m :: ms =>
    if body.lists m.toMessageBody then messageShown m :: nestedShown body ms
    else nestedShown body ms

end

def methodShown (m : Method) : MethodOutline where
  name := m.fullName
  input := ((m.input.value?.bind fun t => s.message? t.fullName).map (·.fullName)).getD ""
  output := ((m.output.value?.bind fun t => s.message? t.fullName).map (·.fullName)).getD ""
  clientStreaming := m.clientStreaming
  serverStreaming := m.serverStreaming
  path := m.path

def serviceShown (v : Service) : ServiceOutline := ⟨v.fullName, v.methods.map (methodShown s)⟩

def extensionShown (x : Field) : ExtensionOutline where
  name := x.fullName
  extendee := ((x.extendee.follow? s.message?).map (·.fullName)).getD ""
  message := ((x.message.follow? s.message?).map (·.fullName)).getD "None"
  enumType := ((x.enumType.follow? s.enum?).map (·.fullName)).getD "None"

/-- What is shown of a linked file. -/
def shown (f : File) : Outline where
  source := f.name
  dependencies := (s.importsOf f).map dependencyOutline
  messages := f.messages.map (messageShown s)
  enums := f.enums.map enumOutline
  services := f.services.map (serviceShown s)
  extensions := f.extensions.map (extensionShown s)

theorem nestedShown_eq (body : MessageBody) (ms : List Message) : nestedShown s body ms =
    (ms.filter fun n => body.lists n.toMessageBody).map (messageShown s) := by
  induction ms with
  | nil => rfl
  | cons n ms ih =>
    rw [nestedShown, ih]
    by_cases h : body.lists n.toMessageBody <;> simp [h]

end Listing

/-! ## Reading cannot fail but for short map entries -/

namespace Schema

variable {s : Schema}

theorem Holds.exists_enum {t : Symbol} (h : s.Holds t) (hk : t.kind = .enum) :
    ∃ e, s.enum? t.fullName = some e := by
  obtain ⟨f, -, -, h⟩ := h
  rw [hk] at h
  obtain ⟨e, -, -, he⟩ := h
  exact ⟨e, he⟩

theorem Means.exists_message {scope typeName : String} {t : Symbol}
    (h : s.Means .message scope typeName t) :
    ∃ m, s.message? t.fullName = some m ∧ m.fullName = t.fullName := by
  obtain ⟨m, hm⟩ := h.holds.exists_message h.kind_eq
  exact ⟨m, hm, by simpa using List.find?_some hm⟩

theorem Means.exists_enum {scope typeName : String} {t : Symbol}
    (h : s.Means .enum scope typeName t) :
    ∃ e, s.enum? t.fullName = some e ∧ e.fullName = t.fullName := by
  obtain ⟨e, he⟩ := h.holds.exists_enum h.kind_eq
  exact ⟨e, he, by simpa using List.find?_some he⟩

end Schema

/-- A reference that was followed leads to a node with the name that it has. -/
theorem Slot.name_follow? {β : Type} {find : String → Option β} {name : β → String}
    {slot : Slot (Option Symbol)} {t : Option Symbol} (h : slot.get = .ok t)
    (found : ∀ u ∈ t, ∃ b, find u.fullName = some b ∧ name b = u.fullName) :
    (slot.follow? find).map name = t.map (·.fullName) := by
  rw [follow?, get_eq_ok_iff.mp h]
  cases t with
  | none => rfl
  | some u =>
    obtain ⟨b, hb, hname⟩ := found u rfl
    rw [Option.join_some, Option.bind_some, hb, Option.map_some, Option.map_some, hname]

namespace Listing

variable {s : Schema} {x : Field}

theorem targetName_eq (t : Option Symbol) :
    targetName t = (t.map (·.fullName)).getD "None" := by
  cases t <;> rfl

theorem mapKinds?_gives (h : x.Followed s) :
    Gives (mapKinds? s x) (s.Paired x) ((s.entryOf? x).bind kindsOf?) := by
  obtain ⟨scope, d, follows⟩ := h
  obtain ⟨t, ht, -, -⟩ := follows.message
  have entry : s.mapEntry? x = .ok (s.entryOf? x) := by
    rw [Schema.mapEntry?, ht, Schema.entryOf?, Slot.follow?, Slot.get_eq_ok_iff.mp ht]
    cases t <;> rfl
  rw [mapKinds?, Schema.mapKey?, Schema.mapValue?, Schema.Paired]
  cases hentry : s.entryOf? x with
  | none =>
    have absent (i : Nat) : s.entryField? x i = .ok none := by
      rw [Schema.entryField?, entry, hentry]
      rfl
    rw [absent 0]
    exact (Gives.of_eq_ok rfl).congr (by simp)
  | some e =>
    have present {i : Nat} {g : Field} (hg : e.fields[i]? = some g) :
        s.entryField? x i = .ok (some g) := by
      simp only [Schema.entryField?, entry, hentry, bind, Except.bind, hg]
      rfl
    have missing {i : Nat} (hi : e.fields[i]? = none) :
        s.entryField? x i = .error .mapEntryTooShort := by
      simp only [Schema.entryField?, entry, hentry, bind, Except.bind, hi]
      rfl
    rw [Option.bind_some, kindsOf?]
    simp only [Option.mem_some_iff, forall_eq']
    -- The field for the keys is read first, so either of the two may be the one that is missing.
    rcases hfields : e.fields with - | ⟨key, - | ⟨value, rest⟩⟩
    · rw [missing (by rw [hfields]; rfl)]
      exact ⟨fun two => absurd two (by simp), fun _ => rfl⟩
    · rw [present (by rw [hfields]; rfl), missing (by rw [hfields]; rfl)]
      exact ⟨fun two => absurd two (by simp), fun _ => rfl⟩
    · rw [present (by rw [hfields]; rfl), present (by rw [hfields]; rfl)]
      exact ⟨fun _ => rfl, fun few => absurd few (by simp)⟩

theorem fieldOutline_gives (owner : MessageBody) (h : x.Followed s) :
    Gives (fieldOutline s owner x) (s.Paired x) (fieldShown s owner x) := by
  have kinds := mapKinds?_gives h
  obtain ⟨scope, d, follows⟩ := h
  obtain ⟨m, hm, -, means⟩ := follows.message
  obtain ⟨e, he, -, means'⟩ := follows.enumType
  have message := Slot.name_follow? hm fun u hu => (means u hu).exists_message
  have enumType := Slot.name_follow? he fun u hu => (means' u hu).exists_enum
  rw [fieldOutline, hm, he, fieldShown, message, enumType, ← targetName_eq, ← targetName_eq]
  exact kinds.map

mutual

theorem messageOutline_gives : ∀ m : Message, (∀ n ∈ m.all, ∀ x ∈ n.fields, x.Followed s) →
    Gives (messageOutline s m) (∀ n ∈ m :: m.collect, ∀ x ∈ n.fields, s.Paired x)
      (messageShown s m)
  | ⟨body, nested⟩, h => by
    obtain ⟨hbody, hnested⟩ := Message.forall_mem_all_iff.mp h
    have fields := Gives.mapM fun x hx => fieldOutline_gives body (hbody x hx)
    have inner := nestedOutlines_gives body nested hnested
    rw [messageOutline, messageShown, Message.collect]
    refine (fields.bind inner.map).congr ?_
    rw [List.forall_mem_cons]

theorem nestedOutlines_gives (body : MessageBody) : ∀ ms : List Message,
    (∀ n ∈ Message.allOf ms, ∀ x ∈ n.fields, x.Followed s) →
    Gives (nestedOutlines s body ms)
      (∀ n ∈ Message.collectFrom body ms, ∀ x ∈ n.fields, s.Paired x) (nestedShown s body ms)
  | [], _ => (Gives.of_eq_ok rfl).congr (iff_of_true trivial (List.forall_mem_nil _))
  | m :: ms, h => by
    rw [Message.allOf, List.forall_mem_append] at h
    have first := messageOutline_gives m h.1
    have rest := nestedOutlines_gives body ms h.2
    rw [nestedOutlines, nestedShown, Message.collectFrom]
    cases body.lists m.toMessageBody with
    | false => exact rest
    | true => exact (first.bind rest.map).congr List.forall_mem_append.symm

end

theorem methodOutline_eq {service : String} {d : MethodDescriptor} {m : Method}
    (h : m.Follows s service d) : methodOutline m = .ok (methodShown s m) := by
  obtain ⟨i, hi, input⟩ := h.input
  obtain ⟨o, ho, output⟩ := h.output
  obtain ⟨n, hn, inputName⟩ := input.exists_message
  obtain ⟨n', hn', outputName⟩ := output.exists_message
  rw [methodOutline, hi, ho, methodShown, Slot.get_eq_ok_iff.mp hi, Slot.get_eq_ok_iff.mp ho,
    Option.bind_some, Option.bind_some, hn, hn', Option.map_some, Option.map_some, inputName,
    outputName]
  rfl

theorem extensionOutline_eq (h : x.Followed s) :
    extensionOutline x = .ok (extensionShown s x) := by
  obtain ⟨scope, d, follows⟩ := h
  obtain ⟨m, hm, -, means⟩ := follows.message
  obtain ⟨e, he, -, means'⟩ := follows.enumType
  obtain ⟨o, ho, -, extended⟩ := follows.extendee
  have message := Slot.name_follow? hm fun u hu => (means u hu).exists_message
  have enumType := Slot.name_follow? he fun u hu => (means' u hu).exists_enum
  have extendee := Slot.name_follow? ho fun u hu => by
    obtain ⟨n, -, meaning⟩ := extended u hu
    exact meaning.exists_message
  rw [extensionOutline, hm, he, ho, extensionShown, message, enumType, extendee, ← targetName_eq,
    ← targetName_eq]
  rfl

variable {d : FileDescriptor} {f : File}

theorem outline_gives (h : f.Follows s d) :
    Gives (outline s f) (∀ m ∈ f.collectMessages, ∀ x ∈ m.fields, s.Paired x) (shown s f) := by
  have messages := Gives.mapM fun m (hm : m ∈ f.messages) =>
    messageOutline_gives m fun n hn => h.field_followed
      (File.mem_allMessages_of_mem (List.mem_of_mem_filter hm) n hn)
  have services : f.services.mapM serviceOutline = .ok (f.services.map (serviceShown s)) := by
    refine Gives.mapM_eq_ok fun v hv => ?_
    have methods : v.methods.mapM methodOutline = .ok (v.methods.map (methodShown s)) := by
      refine Gives.mapM_eq_ok fun m hm => ?_
      have followed : ∀ q ∈ f.allMethods, ∃ d, q.2.Follows s q.1 d :=
        forall_mem_right_of_forall₂ h.methods fun p q hq => ⟨p.2, hq.1 ▸ hq.2⟩
      obtain ⟨d, hd⟩ := followed (v.fullName, m) (List.mem_flatMap_of_mem
        (List.mem_of_mem_filter hv) (List.mem_map_of_mem hm))
      exact methodOutline_eq hd
    rw [serviceOutline, methods]
    rfl
  have extensions : f.extensions.mapM extensionOutline =
      .ok (f.extensions.map (extensionShown s)) :=
    Gives.mapM_eq_ok fun x hx => extensionOutline_eq (h.extension_followed x hx)
  rw [outline, services, extensions, File.collectMessages, List.forall_mem_flatMap]
  exact messages.map

end Listing

/-! ## What a linked file lists -/

/-- A file lists everything that it declares but the map entries inside of messages. -/
structure File.ListsDeclared (f : File) : Prop where
  messages : f.messages = f.ownMessages
  enums : f.enums = f.ownEnums
  services : f.services = f.ownServices
  nested : ∀ m ∈ f.allMessages, m.messages = m.nested.filter fun n => !n.isMapEntry
  inner : ∀ m ∈ f.allMessages, m.enums = m.ownEnums

namespace Schema

variable {scheme : ImportScheme} {files : List FileDescriptor} {wanted : List String} {s : Schema}
  (h : ofFiles scheme files wanted = .ok s)

include h

theorem collectMessages_subset {f : File} (hf : f ∈ s.files) :
    f.collectMessages ⊆ f.allMessages := by
  have rooted := rooted_of_made (unlinked_of_ofFiles h) f hf
  classical
  rw [File.collectMessages_eq rooted (hides_dropped h f hf)]
  exact List.filter_subset_self _

theorem listsDeclared_of_ofFiles {f : File} (hf : f ∈ s.files) : f.ListsDeclared := by
  have rooted := rooted_of_made (unlinked_of_ofFiles h) f hf
  have hides := hidesEntries_of_ofFiles h f hf
  constructor
  · exact rooted.messages_eq
  · exact List.filter_eq_self.mpr fun e he => (rooted.ownEnums e he).1
  · obtain ⟨-, rfl⟩ := (ofFiles_eq_ok_iff scheme).mp h
    obtain ⟨g, hg, rfl⟩ := List.mem_map.mp hf
    obtain ⟨d, -, rfl⟩ := List.mem_map.mp hg
    have fresh := d.fresh_node scheme (wanted.contains d.name)
    rw [File.services, File.ownServices_linked _ fresh, List.filter_eq_self]
    exact List.forall_mem_map.mpr fresh.services
  · intro m hm
    refine List.filter_congr fun n hn => ?_
    have complete : n.isComplete = true :=
      rooted.complete n (Message.mem_allOf_of_mem_nested _ m hm n hn)
    rw [MessageBody.lists, complete, hides m hm, Bool.true_and, Bool.true_and]
  · exact fun m hm => List.filter_eq_self.mpr fun e he => (rooted.enums m hm e he).1

/-- A field of a message that is in a oneof is in one of the message. -/
theorem oneof_lt_of_ofFiles : ∀ f ∈ s.files, ∀ m ∈ f.allMessages, ∀ x ∈ m.fields, ∀ i ∈ x.oneof,
    i < m.oneofs.length := by
  obtain ⟨hc, rfl⟩ := (ofFiles_eq_ok_iff scheme).mp h
  intro f hf
  obtain ⟨g, hg, rfl⟩ := List.mem_map.mp hf
  obtain ⟨d, hd, rfl⟩ := List.mem_map.mp hg
  -- A message has as many oneofs as its descriptor, for which the indices were checked.
  let InRange (b : MessageBody) : Prop := ∀ x ∈ b.fields, ∀ i ∈ x.oneof, i < b.oneofs.length
  have made : List.Forall₂ (fun p (n : Message) => p.2.Sound → InRange n.toMessageBody)
      d.allMessages (d.node scheme (wanted.contains d.name)).allMessages := by
    refine d.forall₂_allMessages scheme _ (R := fun p b => p.2.Sound → InRange b) ?_
    intro parent path m sound
    have length : ((d.source scheme).bodyNode parent path m).oneofs.length = m.oneofs.length := by
      have names := (d.source scheme).map_oneofs_bodyNode (g := Oneof.name) (fun _ _ => rfl)
        parent path m
      simpa using congrArg List.length names
    intro x hx i hi
    rw [Source.bodyNode_fields] at hx
    obtain ⟨p, hp, rfl⟩ := List.mem_map.mp hx
    obtain ⟨j, hj, rfl⟩ := Option.mem_map.mp hi
    have inRange : 0 ≤ j ∧ j < m.oneofs.length :=
      (sound.fields p.1 (List.fst_mem_of_mem_zipIdx hp)).1 j hj
    rw [length]
    omega
  have inRange := forall_mem_of_forall₂ made (fun _ _ hp => hp) (hc.sound d hd).messages
  rw [File.allMessages_linked _ (d.fresh_node scheme _), List.forall_mem_map]
  intro m hm
  rw [Message.toMessageBody_mapListed, MessageBody.linked]
  exact List.forall_mem_map.mpr (inRange m hm)

/-- Every import of a file is found. -/
theorem forall₂_importsOf {f : File} (hf : f ∈ s.files) :
    List.Forall₂ (fun t g => s.file? t.fullName = some g ∧ t.fullName = g.name) f.dependencies
      (s.importsOf f) := by
  obtain ⟨d, follows⟩ := exists_follows h f hf
  apply forall₂_filterMap
  intro t ht
  obtain ⟨g, hg, name⟩ := (faithful_of_ofFiles h).exists_import follows t ht
  exact ⟨g, hg, hg, name⟩

theorem map_name_importsOf {f : File} (hf : f ∈ s.files) :
    (s.importsOf f).map (·.name) = f.dependencies.map (·.fullName) := by
  have names : List.Forall₂ Eq (f.dependencies.map (·.fullName))
      ((s.importsOf f).map (·.name)) := by
    rw [List.forall₂_map_left_iff, List.forall₂_map_right_iff]
    exact (forall₂_importsOf h hf).imp fun _ _ found => found.2
  rw [List.forall₂_eq_eq_eq] at names
  exact names.symm

end Schema

namespace Listing

variable (s : Schema)

/-- The block of a message at an indentation. -/
def block (level : Nat) (m : Message) : List String := (messageShown s m).lines level

/-- The block of a message has a line for its name, the blocks of its fields, of the messages that
it lists and of its enums, in this order, and the blocks are indented below their headings. -/
theorem block_eq (level : Nat) (m : Message) : block s level m =
    [indented level ("- name: " ++ m.fullName), indented level "  fields:"]
      ++ m.fields.flatMap (fun x => (fieldShown s m.toMessageBody x).lines (level + 2))
      ++ [indented level "  messages:"] ++ m.messages.flatMap (block s (level + 2))
      ++ [indented level "  enums:"]
      ++ m.enums.flatMap fun e => (enumOutline e).lines (level + 2) := by
  obtain ⟨body, nested⟩ := m
  rw [block, messageShown, MessageOutline.lines, forestLines_eq_flatMap, nestedShown_eq,
    List.flatMap_map, List.flatMap_map, List.flatMap_map]
  rfl

theorem FieldOutline.length_lines (level : Nat) (x : FieldOutline) : (x.lines level).length =
    5 + (if x.map?.isSome then 1 else 0) + if x.oneof?.isSome then 1 else 0 := by
  obtain ⟨name, kind, cardinality, message, enumType, map?, oneof?⟩ := x
  cases map? <;> cases oneof? <;> rfl

/-- What is written for a linked file. -/
structure Written [WorkingDirectory] (s : Schema) (f : File) (b : Buffer) : Prop where
  name : b.name = outputName f.name ".out"
  lines : b.lines = ["# Generated code output.", "# source: " ++ f.name]
    ++ ["", "dependencies:"] ++ (s.importsOf f).flatMap (fun g => (dependencyOutline g).lines)
    ++ ["", "messages:"] ++ f.messages.flatMap (block s 0)
    ++ ["", "enums:"] ++ f.enums.flatMap (fun e => (enumOutline e).lines 0)
    ++ ["", "services:"] ++ f.services.flatMap (fun v => (serviceShown s v).lines)
    ++ ["", "extensions:"] ++ f.extensions.flatMap fun x => (extensionShown s x).lines
  /-- What is listed is all that is declared, map entries inside of messages left out. -/
  listsDeclared : f.ListsDeclared
  /-- Every import is found, so that it has a block. -/
  imports : (s.importsOf f).map (·.name) = f.dependencies.map (·.fullName)
  /-- The block of a message, which has the blocks of the messages that it lists inside. -/
  block : ∀ level m, block s level m =
    [indented level ("- name: " ++ m.fullName), indented level "  fields:"]
      ++ m.fields.flatMap (fun x => (fieldShown s m.toMessageBody x).lines (level + 2))
      ++ [indented level "  messages:"] ++ m.messages.flatMap (Listing.block s (level + 2))
      ++ [indented level "  enums:"]
      ++ m.enums.flatMap fun e => (enumOutline e).lines (level + 2)
  /-- A field has five lines, one more if it is a map and one more if it is in a oneof. -/
  fields : ∀ m ∈ f.collectMessages, ∀ x ∈ m.fields, ∀ level,
    ((fieldShown s m.toMessageBody x).lines level).length =
      5 + (if (s.entryOf? x).isSome then 1 else 0) + if x.oneof.isSome then 1 else 0
  /-- No blank lines stand between the blocks. -/
  blank : b.lines.filter blank = List.replicate 5 ""
  content : b.content = "\n".intercalate b.lines
  text : text s f = .ok (b.content ++ "\n")

variable {s} {f : File}

/-- A field with as many lines as there is to say of it. -/
theorem length_lines_fieldShown {owner : MessageBody} {x : Field} (paired : s.Paired x)
    (oneof : ∀ i ∈ x.oneof, i < owner.oneofs.length) (level : Nat) :
    ((fieldShown s owner x).lines level).length =
      5 + (if (s.entryOf? x).isSome then 1 else 0) + if x.oneof.isSome then 1 else 0 := by
  have map : (fieldShown s owner x).map?.isSome = (s.entryOf? x).isSome := by
    rw [fieldShown]
    rw [Schema.Paired] at paired
    cases hentry : s.entryOf? x with
    | none => rfl
    | some e =>
      have two := paired e hentry
      rw [Option.bind_some, kindsOf?]
      rcases hfields : e.fields with - | ⟨key, - | ⟨value, rest⟩⟩
      · simp [hfields] at two
      · simp [hfields] at two
      · rfl
  have group : (fieldShown s owner x).oneof?.isSome = x.oneof.isSome := by
    rw [fieldShown]
    cases hx : x.oneof with
    | none => rfl
    | some i =>
      rw [Option.bind_some, List.getElem?_eq_getElem (oneof i hx)]
      rfl
  rw [FieldOutline.length_lines, map, group]

/-- What is written for a file that can be printed, if no name in it holds a line break: the file is
listed line by line as it is linked. -/
theorem write_lines [WorkingDirectory] {scheme : ImportScheme} {files : List FileDescriptor}
    {wanted : List String} (h : Schema.ofFiles scheme files wanted = .ok s) (hf : f ∈ s.files)
    {t : String} (ht : Listing.text s f = .ok t) (plain : Plain (shown s f).names) :
    ∃ b, write s f = .ok b ∧ Written s f b := by
  obtain ⟨d, follows⟩ := Schema.exists_follows h f hf
  have gives := outline_gives follows
  obtain ⟨o, ho, rfl⟩ := text_eq_ok_iff.mp ht
  obtain rfl := gives.eq_of_ok ho
  refine ⟨_, write_eq ho plain, ?_⟩
  constructor
  · rfl
  · simp only [Outline.lines, shown, List.flatMap_map]
    rfl
  · exact Schema.listsDeclared_of_ofFiles h hf
  · exact Schema.map_name_importsOf h hf
  · exact block_eq s
  · intro m hm x hx
    exact length_lines_fieldShown (gives.exists_ok_iff.mp ⟨_, ho⟩ m hm x hx)
      (Schema.oneof_lt_of_ofFiles h f hf m (Schema.collectMessages_subset h hf hm) x hx)
  · exact (shown s f).filter_blank
  · exact Buffer.content_mk _ _ _
  · rw [ht, Buffer.content_mk, (shown s f).intercalate_lines]

/-- A message with a map, a oneof, another message and an enum inside, and an extension of it. -/
def holderFile : FileDescriptor :=
  { name := "dir/m.proto", package := "m"
    messages := [
      { name := "Holder"
        fields := [
          { name := "counts", number := 1, label := some 3, kind := some .message
            typeName := ".m.Holder.CountsEntry" },
          { name := "a", number := 2, label := some 1, kind := some .string, oneofIndex := some 0 }]
        oneofs := [{ name := "choice" }]
        enums := [{ name := "Level", values := [{ name := "LOW" }] }]
        nested := [
          { name := "CountsEntry", isMapEntry := true
            fields := [
              { name := "key", number := 1, label := some 1, kind := some .string },
              { name := "value", number := 2, label := some 1, kind := some .int32 }] },
          { name := "Inner" }] }]
    extensions := [
      { name := "note", number := 100, label := some 1, kind := some .string
        extendee := some ".m.Holder" }] }

/-- What is written for `holderFile`. -/
def holderLines : List String := [
  "# Generated code output.",
  "# source: dir/m.proto",
  "",
  "dependencies:",
  "",
  "messages:",
  "- name: m.Holder",
  "  fields:",
  "  - name: m.Holder.counts",
  "    kind: message",
  "    cardinality: repeated",
  "    message: m.Holder.CountsEntry",
  "    enum: None",
  "    map: string -> int32",
  "  - name: m.Holder.a",
  "    kind: string",
  "    cardinality: optional",
  "    message: None",
  "    enum: None",
  "    oneof: choice",
  "  messages:",
  "  - name: m.Holder.Inner",
  "    fields:",
  "    messages:",
  "    enums:",
  "  enums:",
  "  - name: m.Holder.Level",
  "    values:",
  "    - name: m.LOW",
  "      number: 0",
  "",
  "enums:",
  "",
  "services:",
  "",
  "extensions:",
  "- name: m.note",
  "  extendee: m.Holder",
  "  message: None",
  "  enum: None"]

theorem write_lines_holderFile :
    let : WorkingDirectory := .ofPath ['/']
    ∃ s f b, Schema.ofFiles .bundled [holderFile] [] = .ok s ∧ f ∈ s.files ∧ write s f = .ok b ∧
      Written s f b ∧ b.lines = holderLines := by
  intro root
  have made : (Schema.ofFiles .bundled [holderFile] []).toOption.any (fun s =>
      s.files.any fun f => (text s f).isOk && decide (Plain (shown s f).names)
        && decide ((shown s f).lines = holderLines)) := by
    decide +kernel
  obtain ⟨s, hs⟩ : ∃ s, Schema.ofFiles .bundled [holderFile] [] = .ok s :=
    exists_ofFiles_of_isOk (by decide +kernel)
  rw [hs, Except.toOption, Option.any_some, List.any_eq_true] at made
  obtain ⟨f, hf, made⟩ := made
  rw [Bool.and_eq_true, Bool.and_eq_true, decide_eq_true_iff, decide_eq_true_iff] at made
  obtain ⟨⟨printed, plain⟩, lines⟩ := made
  obtain ⟨t, ht⟩ := exists_ok_of_isOk printed
  obtain ⟨b, hb, written⟩ := write_lines hs hf ht plain
  refine ⟨s, f, b, hs, hf, hb, written, ?_⟩
  rw [written.lines, ← lines]
  simp only [Outline.lines, shown, List.flatMap_map]
  rfl

end Listing

end Protolink
