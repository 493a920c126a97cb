import Protolink.Proofs.Faults
import Protolink.Proofs.Tasks

/-!
# Where a link stops

A link of a file that was never linked fails only at a reference that means nothing, and it leaves
the file as far as it came.  If an import is not found, no task of the file was begun.  Otherwise
all imports were found and the link stopped at one of the tasks: those before it are done, those
after it are open, and `Task.Halts` says what became of the task itself.
-/

namespace Protolink

/-! ## Steps that fail -/

/-- A step that goes through does not fail. -/
theorem Yields.ne_error {ε σ : Type} {t : EStateM ε σ Unit} {s s' s'' : σ} {P : Prop} {e : ε}
    (h : Yields t s P s') (hP : P) : t s ≠ .error e s'' := by
  rw [(h s').mpr ⟨hP, rfl⟩]
  exact nofun

theorem Link.determine_seq_eq_error_iff {σ α : Type} {q : σ → Except Error α} {k : α → Link σ Unit}
    {s s' : σ} {e : Error} : (determine q >>= k) s = .error e s' ↔
      (q s = .error e ∧ s = s') ∨ ∃ a, q s = .ok a ∧ k a s = .error e s' := by
  rw [Yields.bind_eq_error_iff, determine]
  cases q s <;> simp

variable (r : Registry Symbol)

/-! ## Single tasks -/

namespace Task

/-- Nothing of the task is done. -/
def IsOpen : Task → Prop
  | field f => f.IsOpen
  | method _ m => m.input.value? = none ∧ m.output.value? = none
  | listing _ hidden => hidden = false

/-- All of the task is done. -/
def IsSet : Task → Prop
  | field f => f.IsSet
  | method _ m => m.IsSet
  | listing _ hidden => hidden = true

/-- What is made of a task when it is done. -/
inductive Done : Task → Task → Prop where
  | field {f : Field} (h : f.Resolves r) : Done (field f) (field (f.linked r))
  | method {scope : String} {m : Method} (h : m.Linkable r scope) :
    Done (method scope m) (method scope (m.linked r scope))
  | listing {message : String} : Done (listing message false) (listing message true)

/-- How a task fails, and what is left of it. -/
inductive Halts : Task → Error → Task → Prop where
  /-- The type of a field means nothing, and the field stays open. -/
  | target {f : Field} {e : Error} (isOpen : f.IsOpen) (h : f.target r = .error e) :
    Halts (field f) e (field f)
  /-- The type of a field is set, and the message that it extends means nothing. -/
  | extendee {f : Field} {e : Error} {t : Option Symbol} (isOpen : f.IsOpen)
    (type : f.target r = .ok t) (h : f.extended r = .error e) :
    Halts (field f) e (field { f with
      enumType := { f.enumType with value? := some (t.filter (·.kind == .enum)) }
      message := { f.message with value? := some (t.filter (·.kind == .message)) } })
  /-- One of a method's types means nothing, and both stay open. -/
  | types {scope : String} {m : Method} {e : Error}
    (isOpen : m.input.value? = none ∧ m.output.value? = none)
    (h : m.typeOf r scope "input" m.inputName = .error e ∨
      (∃ i, m.typeOf r scope "input" m.inputName = .ok i) ∧
        m.typeOf r scope "output" m.outputName = .error e) :
    Halts (method scope m) e (method scope m)

variable {r} {x y : Task} {e : Error}

theorem Done.isSet (h : Done r x y) : y.IsSet := by
  cases h with
  | field h => exact Field.isSet_linked r _
  | method h => exact Method.isSet_linked h
  | listing => rfl

theorem Halts.isUnresolved (h : Halts r x e y) : e.isUnresolved = true := by
  cases h with
  | target _ h => exact Field.target_unresolved r h
  | extendee _ _ h => exact Field.extended_unresolved r h
  | types _ h =>
    rcases h with h | ⟨-, h⟩
    · exact Method.typeOf_unresolved r h
    · exact Method.typeOf_unresolved r h

theorem done_of_link (hx : x.IsOpen) (h : link r x = .ok () y) : Done r x y := by
  cases x with
  | field f =>
    obtain ⟨g, hg, rfl⟩ := seen_eq_ok_iff.mp h
    obtain ⟨⟨-, resolves⟩, rfl⟩ := (Field.link_yields r f g).mp hg
    exact .field resolves
  | method scope m =>
    obtain ⟨n, hn, rfl⟩ := seen_eq_ok_iff.mp h
    obtain ⟨linkable, rfl⟩ := (Method.link_yields r scope m n).mp hn
    exact .method linkable
  | listing message hidden =>
    obtain ⟨-, rfl⟩ := EStateM.Result.ok.inj h
    obtain rfl : hidden = false := hx
    exact .listing

theorem halts_of_link (hx : x.IsOpen) (h : link r x = .error e y) : Halts r x e y := by
  cases x with
  | field f =>
    obtain ⟨g, hg, rfl⟩ := seen_eq_error_iff.mp h
    rcases Link.determine_seq_eq_error_iff.mp hg with ⟨type, rfl⟩ | ⟨t, type, hg⟩
    · exact .target hx type
    rcases Yields.bind_eq_error_iff.mp hg with set | ⟨_, f', set, hg⟩
    · exact absurd set ((Field.setTarget_yields t f).ne_error ⟨hx.enumType, hx.message⟩)
    obtain ⟨-, rfl⟩ := (Field.setTarget_yields t f f').mp set
    rcases Link.determine_seq_eq_error_iff.mp hg with ⟨extended, rfl⟩ | ⟨u, -, hg⟩
    · exact .extendee hx type extended
    · exact absurd hg ((Field.setExtendee_yields u _).ne_error hx.extendee)
  | method scope m =>
    obtain ⟨n, hn, rfl⟩ := seen_eq_error_iff.mp h
    rcases Link.determine_seq_eq_error_iff.mp hn with ⟨input, rfl⟩ | ⟨i, input, hn⟩
    · exact .types hx (.inl input)
    rcases Link.determine_seq_eq_error_iff.mp hn with ⟨output, rfl⟩ | ⟨o, -, hn⟩
    · exact .types hx (.inr ⟨⟨i, input⟩, output⟩)
    · exact absurd hn ((Method.setTypes_yields i o m).ne_error hx)
  | listing message hidden => exact absurd h nofun

end Task

/-! ## Files -/

theorem MessageBody.isOpen_tasks {b : MessageBody} (h : b.Blank) (hidden : b.hidesEntries = false) :
    ∀ x ∈ b.tasks, x.IsOpen := by
  simp only [tasks, List.forall_mem_append, List.forall_mem_map, List.forall_mem_singleton]
  exact ⟨fun f hf => (h.fields f hf).isOpen, fun f hf => (h.extensions f hf).isOpen, hidden⟩

namespace File

theorem Blank.messages_all {f : File} (h : f.Blank) :
    ∀ n ∈ f.allMessages, n.toMessageBody.Blank := by
  rw [allMessages, Message.allOf_eq_flatMap, List.forall_mem_flatMap]
  exact h.messages

/-- The listing of every message is among the tasks. -/
theorem listing_mem_tasks {f : File} {n : Message} (h : n ∈ f.allMessages) :
    Task.listing n.fullName n.hidesEntries ∈ f.tasks := by
  refine f.tasks_perm.mem_iff.mpr (List.mem_append_left _ (List.mem_flatMap.mpr ⟨n, h, ?_⟩))
  exact List.mem_append_right _ (List.mem_append_right _ (List.mem_singleton_self _))

theorem isOpen_tasks {f : File} (blank : f.Blank) (fresh : f.Fresh) : ∀ x ∈ f.tasks, x.IsOpen := by
  simp only [f.tasks_perm.mem_iff, List.forall_mem_append, List.forall_mem_flatMap,
    List.forall_mem_map, Service.tasks]
  refine ⟨fun m hm => ?_, fun s hs m hm => ?_, fun x hx => (blank.extensions x hx).isOpen⟩
  · exact MessageBody.isOpen_tasks (blank.messages_all m hm) (fresh.messages_all m hm).2
  · have isBlank := blank.services s hs m hm
    exact ⟨congrArg Slot.value? isBlank.input, congrArg Slot.value? isBlank.output⟩

/-- How far a link of `f` came that failed with `e` and left `g`. -/
inductive Stops (f : File) (e : Error) (g : File) : Prop where
  /-- An import is not found.  Those before it are, and no task is begun. -/
  | dependency {names rest : List String} {name : String}
    (split : f.dependencyNames = names ++ name :: rest)
    (found : List.Forall₂ (fun n t => r.lookup .file n = some t) names g.dependencies)
    (unknown : r.lookup .file name = none) (error : e = .unknownDependency f.name name)
    (stays : g.tasks = f.tasks) (isOpen : ∀ x ∈ g.tasks, x.IsOpen)
  /-- All imports are found.  The tasks before `x` are done, and those after it are not begun. -/
  | task {done done' rest : List Task} {x x' : Task}
    (found : List.Forall₂ (fun n t => r.lookup .file n = some t) f.dependencyNames g.dependencies)
    (before : f.tasks = done ++ x :: rest) (after : g.tasks = done' ++ x' :: rest)
    (isDone : List.Forall₂ (Task.Done r) done done') (isSet : ∀ y ∈ done', y.IsSet)
    (halts : Task.Halts r x e x') (isOpen : ∀ y ∈ rest, y.IsOpen)

variable {r} {f g : File} {e : Error}

theorem Stops.isUnresolved (h : f.Stops r e g) : e.isUnresolved = true := by
  cases h with
  | dependency _ _ _ error =>
    rw [error]
    rfl
  | task _ _ _ _ _ halts => exact halts.isUnresolved

/-- The imports of a file are found one after the other, until one of them is unknown. -/
theorem addDependencies_eq_error {names : List String}
    (h : (names.forM fun n => Link.update (addDependency r n)) f = .error e g) :
    ∃ done name rest ts, names = done ++ name :: rest ∧
      List.Forall₂ (fun n t => r.lookup .file n = some t) done ts ∧
      r.lookup .file name = none ∧ e = .unknownDependency f.name name ∧
      g = { f with dependencies := f.dependencies ++ ts } := by
  induction names generalizing f with
  | nil => cases h
  | cons n names ih =>
    cases hn : r.lookup .file n with
    | none =>
      have failed : Link.update (addDependency r n) f = .error (.unknownDependency f.name n) f := by
        simp only [Link.update, addDependency, hn]
      rcases Yields.bind_eq_error_iff.mp h with h | ⟨_, f', h, -⟩
      · obtain ⟨rfl, rfl⟩ := EStateM.Result.error.inj (failed.symm.trans h)
        exact ⟨[], n, names, [], rfl, .nil, hn, rfl, by rw [List.append_nil]⟩
      · cases failed.symm.trans h
    | some t =>
      have added : Link.update (addDependency r n) f =
          .ok () { f with dependencies := f.dependencies ++ [t] } := by
        simp only [Link.update, addDependency, hn]
      rcases Yields.bind_eq_error_iff.mp h with h | ⟨_, f', h, hrest⟩
      · cases added.symm.trans h
      · obtain ⟨-, rfl⟩ := EStateM.Result.ok.inj (added.symm.trans h)
        obtain ⟨done, name, rest, ts, rfl, found, unknown, rfl, rfl⟩ := ih hrest
        refine ⟨n :: done, name, rest, t :: ts, rfl, .cons hn found, unknown, rfl, ?_⟩
        rw [List.append_assoc]
        rfl

/-- A link that goes wrong stops at an import or at a task. -/
theorem link_eq_error (blank : f.Blank) (fresh : f.Fresh) (none : f.dependencies = [])
    (h : File.link r f = .error e g) : f.Stops r e g := by
  have isOpen := isOpen_tasks blank fresh
  by_cases known : ∀ n ∈ f.dependencyNames, (r.lookup .file n).isSome = true
  case neg =>
    rcases Yields.bind_eq_error_iff.mp h with h | ⟨_, f', h, hlink⟩
    · exact absurd h nofun
    obtain ⟨rfl, rfl⟩ := EStateM.Result.ok.inj h
    rcases Yields.bind_eq_error_iff.mp hlink with h | ⟨_, f', h, -⟩
    · obtain ⟨done, n, rest, ts, split, found, unknown, error, rfl⟩ := addDependencies_eq_error h
      refine .dependency split ?_ unknown error rfl isOpen
      rwa [none, List.nil_append]
    · exact absurd ((addDependencies_yields r f.dependencyNames f f').mp h).1 known
  rw [link_eq_linkNodes r known, none, List.nil_append] at h
  have kept := alike_linkNodes r { f with
    dependencies := f.dependencyNames.filterMap (r.lookup .file) }
  rw [leaves, h, final] at kept
  have unrolled := linkNodes_unrolls r (f := { f with
    dependencies := f.dependencyNames.filterMap (r.lookup .file) }) ⟨fresh.messages, fresh.services⟩
  have failed := unrolled.symm.trans (seen_eq_error_iff.mpr ⟨g, h, rfl⟩)
  obtain ⟨done, x, rest, done', x', before, after, hdone, hx⟩ := Link.each_eq_error failed
  change f.tasks = _ at before
  rw [before, List.forall_mem_append, List.forall_mem_cons] at isOpen
  have isDone : List.Forall₂ (Task.Done r) done done' :=
    ((List.forall₂_and_left _ _).mpr ⟨isOpen.1, hdone⟩).imp fun _ _ hy =>
      Task.done_of_link hy.1 hy.2
  refine .task ?_ before after isDone ?_ (Task.halts_of_link isOpen.2.1 hx) isOpen.2.2
  · rw [show g.dependencies = _ from kept]
    refine forall₂_filterMap fun n hn => ?_
    obtain ⟨t, ht⟩ := Option.isSome_iff_exists.mp (known n hn)
    exact ⟨t, ht, ht⟩
  · exact forall_mem_right_of_forall₂ isDone fun _ _ h => h.isSet

end File

/-! ## A file of a session -/

namespace Schema

variable {scheme : ImportScheme} {generate : Bool} {d : FileDescriptor} {s : Schema}

/-- A link of a file that was declared and never linked fails only with a reference that means
nothing.  It stops there: what comes before in the file is done, what comes after is open, and just
those messages hide their map entries that the link is done with. -/
theorem linkFile_stops (h : Pending scheme generate d s) {key : String} {t : Symbol}
    (ht : s.registry.lookup .file key = some t) (name : t.fullName = d.name) {e : Error}
    {s' : Schema} (failed : linkFile key s = .error e s') :
    e.isUnresolved = true ∧ ∃ front g back,
      s.files = front ++ d.node scheme generate :: back ∧ s' = ⟨s.registry, front ++ g :: back⟩ ∧
      (d.node scheme generate).Stops s.registry e g ∧
      List.Forall₂ (fun m n : Message => n.unlinked = m ∧
          n.messages.map Message.unlinked =
            m.messages.filter (fun k => !(n.hidesEntries && k.isMapEntry)) ∧
          Task.listing n.fullName n.hidesEntries ∈ g.tasks)
        (d.node scheme generate).allMessages g.allMessages := by
  obtain ⟨front, back, hfiles, hlink⟩ := h.linkFile_eq ht name
  rw [hlink, Link.within_eq_error_iff] at failed
  obtain ⟨g, hg, rfl⟩ := failed
  have stops := File.link_eq_error (d.blank_node scheme generate) (d.fresh_node scheme generate)
    rfl hg
  have unlinked := d.unlinked_leaves_link scheme generate s.registry
  rw [leaves, hg, final] at unlinked
  refine ⟨stops.isUnresolved, front, g, back, hfiles, rfl, stops, ?_⟩
  have same := File.forall₂_allMessages_of_unlinked unlinked
  have listed : ∀ n ∈ g.allMessages, Task.listing n.fullName n.hidesEntries ∈ g.tasks :=
    fun n => File.listing_mem_tasks
  refine ((List.forall₂_and_left _ _).mpr ⟨listed, same.flip⟩).flip.imp fun m n hn => ?_
  exact ⟨hn.2, Message.messages_of_unlinked hn.2, hn.1⟩

/-- The two files of a shop are declared, but there are no items. -/
def soldOutSteps : List Step := shopSteps.take 1 ++ [
  .declare false { name := "base.proto", package := "base", messages := [{ name := "Receipt" }] }]

theorem pending_soldOutSteps :
    Pending .bundled true shopFiles[0] (afterAll .bundled {} soldOutSteps) := by
  rw [soldOutSteps, shopSteps, List.take_succ_cons, List.take_zero, List.singleton_append,
    afterAll, List.foldl_cons]
  exact pending_shopFile.laterAll (by simp)

/-- A shop whose map has values that nothing declares.  The link stops inside the entry of the map,
which the message around it lists still. -/
theorem linkFile_stops_soldOutSteps : ∃ t,
    (afterAll .bundled {} soldOutSteps).registry.lookup .file "shop.proto" = some t ∧
    ∃ e s', linkFile "shop.proto" (afterAll .bundled {} soldOutSteps) = .error e s' ∧
      e = .unknownType ".base.Item" "shop.Order.ItemsEntry.value" "shop.Order.ItemsEntry" ∧
    e.isUnresolved = true ∧ ∃ front g back,
      (afterAll .bundled {} soldOutSteps).files =
        front ++ shopFiles[0].node .bundled true :: back ∧
      s' = ⟨(afterAll .bundled {} soldOutSteps).registry, front ++ g :: back⟩ ∧
      (shopFiles[0].node .bundled true).Stops (afterAll .bundled {} soldOutSteps).registry e g ∧
      List.Forall₂ (fun m n : Message => n.unlinked = m ∧
          n.messages.map Message.unlinked =
            m.messages.filter (fun k => !(n.hidesEntries && k.isMapEntry)) ∧
          Task.listing n.fullName n.hidesEntries ∈ g.tasks)
        (shopFiles[0].node .bundled true).allMessages g.allMessages := by
  have found : ((afterAll .bundled {} soldOutSteps).registry.lookup .file "shop.proto").map
      Symbol.fullName = some "shop.proto" := by decide +kernel
  obtain ⟨t, ht, name⟩ := Option.map_eq_some_iff.mp found
  have fault : fault? .bundled (afterAll .bundled {} soldOutSteps) (.link "shop.proto") = some
      (.unknownType ".base.Item" "shop.Order.ItemsEntry.value" "shop.Order.ItemsEntry") := by
    decide +kernel
  have run := perform_of_fault?_eq_some .bundled fault
  exact ⟨t, ht, _, _, run, rfl, linkFile_stops pending_soldOutSteps ht name run⟩

end Schema

end Protolink
