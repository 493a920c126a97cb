import Protolink.Proofs.Confinement

/-!
# The tasks of a link

A link goes through a tree of nodes and does one thing after the other.  These are its tasks: for a
message those of the messages nested in it, then its fields, its extensions and at last its map
entries, which it hides; after the messages of a file, the methods of its services and then its
extensions.  `File.linkNodes_unrolls` says that to link a file in which everything is listed, once
its imports are found, is to do the tasks of the file in this order.
-/

namespace Protolink

variable {σ τ ρ κ : Type}

/-! ## Links that are done task by task -/

namespace Link

variable {step : Link κ Unit}

theorem each_append (xs ys : List κ) : each (fun _ => true) step (xs ++ ys) =
    match each (fun _ => true) step xs with
    | .error e xs' => .error e (xs' ++ ys)
    | .ok () xs' => seen (xs' ++ ·) (each (fun _ => true) step ys) := by
  induction xs with
  | nil =>
    rw [List.nil_append, each]
    cases each (fun _ => true) step ys <;> rfl
  | cons x xs ih =>
    rw [List.cons_append, each, each, ih]
    cases if true then step x else .ok () x with
    | error e x' => rfl
    | ok u x' =>
      cases each (fun _ => true) step xs with
      | error e xs' => rfl
      | ok u xs' => cases each (fun _ => true) step ys <;> rfl

/-- A loop that fails does so at one of its steps.  It has done those before it, and none of those
after it. -/
theorem each_eq_error {xs ys : List κ} {e : Error}
    (h : each (fun _ => true) step xs = .error e ys) :
    ∃ done x rest done' x', xs = done ++ x :: rest ∧ ys = done' ++ x' :: rest ∧
      List.Forall₂ (fun x y => step x = .ok () y) done done' ∧ step x = .error e x' := by
  induction xs generalizing ys with
  | nil => cases h
  | cons x xs ih =>
    rw [each, if_pos rfl] at h
    cases hx : step x with
    | error e₁ x' =>
      rw [hx] at h
      obtain ⟨rfl, rfl⟩ := EStateM.Result.error.inj h
      exact ⟨[], x, xs, [], x', rfl, rfl, .nil, hx⟩
    | ok u x₁ =>
      rw [hx] at h
      cases hxs : each (fun _ => true) step xs with
      | ok u xs' =>
        rw [hxs] at h
        cases h
      | error e₁ xs' =>
        rw [hxs] at h
        obtain ⟨rfl, rfl⟩ := EStateM.Result.error.inj h
        obtain ⟨done, y, rest, done', y', rfl, rfl, hdone, hy⟩ := ih hxs
        exact ⟨x :: done, y, rest, x₁ :: done', y', rfl, rfl, .cons hx hdone, hy⟩

/-- To do the link `t` on `s` is to do `step` on each element of the list that `q` makes of the
node, one after the other. -/
def Unrolls (step : Link κ Unit) (q : σ → List κ) (t : Link σ Unit) (s : σ) : Prop :=
  seen q (t s) = each (fun _ => true) step (q s)

theorem seen_within (q : σ → τ) (part : σ → ρ) (put : ρ → σ → σ) (t : Link ρ Unit) (s : σ) :
    seen q (within part put t s) = seen (fun b => q (put b s)) (t (part s)) := by
  unfold within
  cases t (part s) <;> rfl

/-- A link of one part leaves another one alone. -/
theorem alike_within {q : σ → τ} {part : σ → ρ} {put : ρ → σ → σ} {t : Link ρ Unit}
    (h : ∀ b s, q (put b s) = q s) : Moves (Alike q) (within part put t) :=
  fun s => (congrArg q (leaves_within part put t s)).trans (h _ s)

/-- What two links leave alone, one after the other, both leave alone. -/
theorem alike_seq {q : σ → τ} {t u : Link σ Unit} (ht : Moves (Alike q) t)
    (hu : Moves (Alike q) u) : Moves (Alike q) (t >>= fun _ => u) :=
  Moves.seq (fun _ _ _ h h' => h'.trans h) ht fun _ => hu

section Rules

variable {q : σ → List κ} {t : Link σ Unit} {s : σ}

theorem Unrolls.congr {q' : σ → List κ} (h : Unrolls step q t s) (hq : ∀ s, q' s = q s) :
    Unrolls step q' t s := by
  rwa [funext hq]

theorem unrolls_edit {f : σ → σ} {x : σ → κ} (h : step (x s) = .ok () (x (f s))) :
    Unrolls step (fun s => [x s]) (edit f) s := by
  change _ = each (fun _ => true) step [x s]
  simp only [each, if_true, h]
  rfl

/-- A single task. -/
theorem unrolls_single {x : σ → κ} (h : step (x s) = seen x (t s)) :
    Unrolls step (fun s => [x s]) t s := by
  change _ = each (fun _ => true) step [x s]
  simp only [each, if_true, h]
  cases t s <;> rfl

/-- A step that is wanted is done. -/
theorem Unrolls.of_wanted {wanted : σ → Bool} (h : Unrolls step q t s) (hw : wanted s = true) :
    Unrolls step q (fun s => if wanted s then t s else .ok () s) s := by
  have done : (if wanted s then t s else .ok () s) = t s := if_pos hw
  exact (congrArg (seen q) done).trans h

/-- The tasks of a whole are those of its parts, one after the other. -/
theorem unrolls_both {u : Link τ Unit} {b : τ} {q₁ : τ → List κ} {q₂ : ρ → List κ}
    {out : Link ρ Unit} {mk : σ → τ → ρ} {whole : ρ} (parts : out whole = both mk t s u b)
    (same : mk s b = whole) (append : ∀ s b, q₂ (mk s b) = q s ++ q₁ b) (ht : Unrolls step q t s)
    (hu : Unrolls step q₁ u b) : Unrolls step q₂ out whole := by
  unfold Unrolls
  rw [parts, ← same, append, each_append, ← ht, ← hu]
  unfold both
  cases t s with
  | error e s₁ => simp only [seen, append]
  | ok _ s₁ => cases u b <;> simp only [seen, append]

/-- A loop over elements all of which are wanted. -/
theorem unrolls_each (wanted : σ → Bool) {bs : List σ}
    (h : ∀ b ∈ bs, wanted b = true ∧ Unrolls step q t b) :
    Unrolls step (List.flatMap q) (each wanted t) bs := by
  induction bs with
  | nil => exact rfl
  | cons b bs ih =>
    rw [List.forall_mem_cons] at h
    exact unrolls_both (each_cons wanted t b bs) rfl (fun _ _ => List.flatMap_cons)
      (h.1.2.of_wanted h.1.1) (ih h.2)

/-- A link of a part is followed by one that leaves this part alone. -/
theorem Unrolls.within_seq {part : σ → ρ} {put : ρ → σ → σ} {step' : Link ρ Unit} {u : Link σ Unit}
    {first : ρ → List κ} {rest : σ → List κ} (ht : Unrolls step first step' (part s))
    (hu : ∀ b, Unrolls step rest u (put b s)) (parts : ∀ s, q s = first (part s) ++ rest s)
    (get_put : ∀ b, part (put b s) = b) (frame : ∀ b, rest (put b s) = rest s)
    (keeps : Moves (Alike part) u) : Unrolls step q (within part put step' >>= fun _ => u) s := by
  have after (b : ρ) : seen q (u (put b s)) =
      seen (first b ++ ·) (each (fun _ => true) step (rest s)) := by
    rw [← frame b, ← hu b]
    have same : part (final (u (put b s))) = b := (keeps _).trans (get_put b)
    cases hr : u (put b s) <;> rw [hr, final] at same <;> simp only [seen, parts, same]
  unfold Unrolls
  rw [parts, each_append, ← ht]
  change seen q (EStateM.bind _ _ s) = _
  unfold EStateM.bind within
  cases step' (part s) with
  | error e b => simp only [seen, parts, get_put, frame]
  | ok v b => exact after b

end Rules

end Link

/-! ## Tasks -/

/-- One of the things that a link does. -/
inductive Task where
  /-- To fill in the references of a field or extension. -/
  | field (f : Field)
  /-- To fill in the types of a method of the service `scope`. -/
  | method (scope : String) (m : Method)
  /-- To hide the map entries of a message; `hidden` tells whether this is done. -/
  | listing (message : String) (hidden : Bool)

namespace Task

def link (r : Registry Symbol) : Link Task Unit
  | field f => seen field (Field.link r f)
  | method scope m => seen (method scope) (Method.link r scope m)
  | listing message _ => .ok () (listing message true)

end Task

def MessageBody.tasks (b : MessageBody) : List Task :=
  b.fields.map .field ++ (b.extensions.map .field ++ [.listing b.fullName b.hidesEntries])

namespace Message

mutual

/-- The tasks of a message: those of the messages nested in it come first. -/
def tasks : Message → List Task
  | ⟨body, nested⟩ => tasksOf nested ++ body.tasks

def tasksOf : List Message → List Task
  | [] => []
  | m :: ms => m.tasks ++ tasksOf ms

end

theorem tasksOf_eq_flatMap (ms : List Message) : tasksOf ms = ms.flatMap tasks := by
  induction ms with
  | nil => rfl
  | cons m ms ih => rw [tasksOf, ih, List.flatMap_cons]

end Message

def Service.tasks (s : Service) : List Task := s.methods.map (.method s.fullName)

/-- The tasks of a file that is read to the end, in the order in which a link does them. -/
def File.tasks (f : File) : List Task :=
  f.ownMessages.flatMap Message.tasks ++
    (f.ownServices.flatMap Service.tasks ++ f.extensions.map .field)

/-! ### Every node is in the tasks -/

namespace Message

mutual

theorem tasks_perm : ∀ m : Message, m.tasks.Perm (m.all.flatMap (·.toMessageBody.tasks))
  | ⟨body, nested⟩ => by
    rw [tasks, all, List.flatMap_cons]
    exact ((tasksOf_perm nested).append_right _).trans List.perm_append_comm

theorem tasksOf_perm : ∀ ms : List Message,
    (tasksOf ms).Perm ((allOf ms).flatMap (·.toMessageBody.tasks))
  | [] => .refl _
  | m :: ms => by
    rw [tasksOf, allOf, List.flatMap_append]
    exact (tasks_perm m).append (tasksOf_perm ms)

end

end Message

/-- The tasks of a file are those of all of its messages, methods and extensions. -/
theorem File.tasks_perm (f : File) : f.tasks.Perm (f.allMessages.flatMap (·.toMessageBody.tasks) ++
    (f.ownServices.flatMap Service.tasks ++ f.extensions.map .field)) := by
  rw [tasks, allMessages, ← Message.tasksOf_eq_flatMap]
  exact (Message.tasksOf_perm f.ownMessages).append_right _

/-! ## A link does its tasks in order -/

variable (r : Registry Symbol)

theorem fields_unroll (fs : List Field) : Link.Unrolls (Task.link r) (List.map Task.field)
    (Link.each (fun _ => true) (Field.link r)) fs := by
  have single (f : Field) : Link.Unrolls (Task.link r) (fun f => [.field f]) (Field.link r) f :=
    Link.unrolls_single rfl
  have all := Link.unrolls_each (fun _ => true) fun f (_ : f ∈ fs) => ⟨rfl, single f⟩
  exact all.congr fun fs => List.map_eq_flatMap

theorem MessageBody.link_unrolls (b : MessageBody) :
    Link.Unrolls (Task.link r) MessageBody.tasks (MessageBody.link r) b := by
  refine Link.Unrolls.within_seq (fields_unroll r b.fields) (fun fs => ?_) (fun _ => rfl)
    (fun _ => rfl) (fun _ => rfl) ?_
  · refine Link.Unrolls.within_seq (fields_unroll r b.extensions) (fun fs => ?_) (fun _ => rfl)
      (fun _ => rfl) (fun _ => rfl) ?_
    · exact Link.unrolls_edit rfl
    · exact Link.moves_edit fun _ => rfl
  · refine Link.alike_seq ?_ (Link.moves_edit fun _ => rfl)
    exact Link.alike_within fun _ _ => rfl

namespace Message

mutual

/-- A message in which everything is listed is linked task by task. -/
theorem link_unrolls : ∀ m : Message, m.Fresh →
    Link.Unrolls (Task.link r) tasks (Message.link r) m
  | ⟨body, nested⟩, h => by
    obtain ⟨⟨-, hb⟩, hn⟩ := fresh_iff.mp h
    refine Link.unrolls_both (link_mk r body nested) rfl (fun nested body => ?_)
      (linkNested_unrolls body hb nested hn) (MessageBody.link_unrolls r body)
    rw [tasks]

theorem linkNested_unrolls (body : MessageBody) (hb : body.hidesEntries = false) :
    ∀ ms : List Message, (∀ n ∈ allOf ms, n.isComplete = true ∧ n.hidesEntries = false) →
    Link.Unrolls (Task.link r) tasksOf (Message.linkNested r body) ms
  | [], _ => rfl
  | m :: ms, h => by
    rw [allOf, List.forall_mem_append] at h
    have hm : body.lists m.toMessageBody := lists_of_fresh hb (fresh_iff.mp h.1).1.1
    refine Link.unrolls_both (linkNested_cons r body m ms) rfl (fun m ms => ?_)
      ((link_unrolls m h.1).of_wanted hm) (linkNested_unrolls body hb ms h.2)
    rw [tasksOf]

end

end Message

theorem Service.link_unrolls (s : Service) :
    Link.Unrolls (Task.link r) Service.tasks (Service.link r) s := by
  have single (m : Method) : Link.Unrolls (Task.link r) (fun m => [.method s.fullName m])
      (Method.link r s.fullName) m := Link.unrolls_single rfl
  have all := Link.unrolls_each (fun _ => true) fun m (_ : m ∈ s.methods) => ⟨rfl, single m⟩
  refine (Link.seen_within Service.tasks _ _ _ s).trans ?_
  exact all.congr fun ms => List.map_eq_flatMap

namespace File

/-- What a link does after it has found the imports of a file. -/
def linkNodes : Link File Unit := do
  Link.within (·.ownMessages) (fun ms f => { f with ownMessages := ms })
    (Link.each (·.isComplete) (Message.link r))
  Link.within (·.ownServices) (fun ss f => { f with ownServices := ss })
    (Link.each (·.isComplete) (Service.link r))
  Link.within (·.extensions) (fun xs f => { f with extensions := xs })
    (Link.each (fun _ => true) (Field.link r))

/-- If all imports of a file are known, what is left is to link its nodes. -/
theorem link_eq_linkNodes {f : File} (known : ∀ n ∈ f.dependencyNames, (r.lookup .file n).isSome) :
    File.link r f = linkNodes r { f with
      dependencies := f.dependencies ++ f.dependencyNames.filterMap (r.lookup .file) } := by
  have found := (addDependencies_yields r f.dependencyNames f _).mpr ⟨known, rfl⟩
  change EStateM.bind _ (fun _ => linkNodes r) f = _
  rw [EStateM.bind, found]

theorem alike_linkNodes : Moves (Alike dependencies) (linkNodes r) := by
  refine Link.alike_seq ?_ (Link.alike_seq ?_ ?_)
  · exact Link.alike_within fun _ _ => rfl
  · exact Link.alike_within fun _ _ => rfl
  · exact Link.alike_within fun _ _ => rfl

/-- To link the nodes of a file in which everything is listed is to do its tasks in order. -/
theorem linkNodes_unrolls {f : File} (h : f.Fresh) :
    Link.Unrolls (Task.link r) tasks (linkNodes r) f := by
  have messages : Link.Unrolls (Task.link r) (List.flatMap Message.tasks)
      (Link.each (·.isComplete) (Message.link r)) f.ownMessages := by
    refine Link.unrolls_each _ fun m hm => ⟨?_, Message.link_unrolls r m (h.messages m hm)⟩
    exact (Message.fresh_iff.mp (h.messages m hm)).1.1
  have services : Link.Unrolls (Task.link r) (List.flatMap Service.tasks)
      (Link.each (·.isComplete) (Service.link r)) f.ownServices :=
    Link.unrolls_each _ fun s hs => ⟨h.services s hs, Service.link_unrolls r s⟩
  refine Link.Unrolls.within_seq messages (fun ms => ?_) (fun _ => rfl) (fun _ => rfl)
    (fun _ => rfl) ?_
  · refine Link.Unrolls.within_seq services (fun ss => ?_) (fun _ => rfl) (fun _ => rfl)
      (fun _ => rfl) ?_
    · exact (Link.seen_within _ _ _ _ _).trans (fields_unroll r f.extensions)
    · exact Link.alike_within fun _ _ => rfl
  · refine Link.alike_seq ?_ ?_
    · exact Link.alike_within fun _ _ => rfl
    · exact Link.alike_within fun _ _ => rfl

end File

end Protolink
