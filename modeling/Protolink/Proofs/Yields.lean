import Protolink.Draft
import Protolink.Link
import Protolink.Proofs.Registry

/-!
# When a step goes through

The steps that declare and link are loops with an early exit.  `Yields` says of one of them when
it goes through and what it leaves, in one equivalence, and there is one rule for each way in
which steps are put together.  The rules say nothing about steps that fail.
-/

namespace Protolink

variable {ε σ β : Type}

/-- From the state `s` the step goes through exactly if `P` holds, and then it leaves `s'`. -/
def Yields (t : EStateM ε σ Unit) (s : σ) (P : Prop) (s' : σ) : Prop :=
  ∀ s'', t s = .ok () s'' ↔ P ∧ s'' = s'

namespace Yields

variable {t : EStateM ε σ Unit} {s s' s'' : σ} {P Q : Prop}

theorem congr (h : Yields t s P s') (hP : P ↔ Q) (hs : s' = s'') : Yields t s Q s'' :=
  fun _ => (h _).trans (by rw [hP, hs])

theorem pure : Yields (Pure.pure () : EStateM ε σ Unit) s True s := fun s'' => by
  change EStateM.Result.ok () s = .ok () s'' ↔ _
  simp [eq_comm]

theorem throw_ne_ok {α : Type} {e : ε} {a : α} :
    (throw e : EStateM ε σ α) s ≠ .ok a s' := nofun

theorem bind_eq_ok_iff {α : Type} {t : EStateM ε σ α} {u : α → EStateM ε σ Unit} :
    (t >>= u) s = .ok () s'' ↔ ∃ a s', t s = .ok a s' ∧ u a s' = .ok () s'' := by
  change EStateM.bind t u s = _ ↔ _
  unfold EStateM.bind
  cases t s <;> simp

/-- A loop goes through if all of its steps do, the last one from where the others leave off. -/
theorem forM_append_eq_ok_iff {α : Type} {step : α → EStateM ε σ Unit} {as : List α} {a : α} :
    (as ++ [a]).forM step s = .ok () s'' ↔
      ∃ s', as.forM step s = .ok () s' ∧ step a s' = .ok () s'' := by
  have split : (as ++ [a]).forM step = as.forM step >>= fun _ => step a :=
    List.forM_append.trans (by simp)
  rw [split, bind_eq_ok_iff]
  constructor
  · rintro ⟨_, s', h⟩
    exact ⟨s', h⟩
  · rintro ⟨s', h⟩
    exact ⟨(), s', h⟩

/-- A step that may depend on the state that it starts from. -/
theorem get {k : σ → EStateM ε σ Unit} (h : Yields (k s) s P s') :
    Yields (MonadState.get >>= k) s P s' := h

/-- The second step starts where the first one leaves off. -/
theorem seq {u : EStateM ε σ Unit} (ht : Yields t s P s') (hu : Yields u s' Q s'') :
    Yields (t >>= fun _ => u) s (P ∧ Q) s'' := fun r => by
  rw [bind_eq_ok_iff]
  constructor
  · rintro ⟨⟨⟩, r', hr', hr⟩
    obtain ⟨hP, rfl⟩ := (ht r').mp hr'
    obtain ⟨hQ, rfl⟩ := (hu r).mp hr
    exact ⟨⟨hP, hQ⟩, rfl⟩
  · rintro ⟨⟨hP, hQ⟩, rfl⟩
    exact ⟨(), s', (ht s').mpr ⟨hP, rfl⟩, (hu r).mpr ⟨hQ, rfl⟩⟩

/-- A step that is done only if it is wanted. -/
theorem ite (c : Bool) (h : Yields t s P s') :
    Yields (fun s => if c then t s else .ok () s) s (c → P) (if c then s' else s) := by
  cases c with
  | true => simpa using h
  | false => exact pure.congr (by simp) rfl

/-- A loop over steps whose conditions do not depend on the state. -/
theorem forM {α : Type} {step : α → EStateM ε σ Unit} {P : α → Prop} {next : σ → α → σ}
    (h : ∀ a s, Yields (step a) s (P a) (next s a)) :
    ∀ (as : List α) (s : σ), Yields (as.forM step) s (∀ a ∈ as, P a) (as.foldl next s)
  | [], s => pure.congr (by simp) rfl
  | a :: as, s => ((h a s).seq (forM h as (next s a))).congr (by simp) rfl

end Yields

/-! ## Links -/

namespace Link

/-- Two links on two parts of a whole, one after the other. -/
def both {τ ρ : Type} (mk : σ → τ → ρ) (t : Link σ Unit) (s : σ) (u : Link τ Unit) (b : τ) :
    EStateM.Result Error ρ Unit :=
  match t s with
  | .error e s' => .error e (mk s' b)
  | .ok () s' =>
    match u b with
    | .error e b' => .error e (mk s' b')
    | .ok () b' => .ok () (mk s' b')

/-- A loop works on the first element and then on the others. -/
theorem each_cons (wanted : β → Bool) (step : Link β Unit) (b : β) (bs : List β) :
    each wanted step (b :: bs) = both List.cons (fun b => if wanted b then step b else .ok () b) b
      (each wanted step) bs := by
  simp only [each, both]
  cases if wanted b then step b else .ok () b with
  | error e b' => rfl
  | ok _ b' => cases each wanted step bs <;> rfl

variable {s s' : σ} {P Q : Prop}

theorem yields_both {τ ρ : Type} {mk : σ → τ → ρ} {t : Link σ Unit} {u : Link τ Unit}
    {out : Link ρ Unit} {whole : ρ} {b b' : τ} (parts : out whole = both mk t s u b)
    (ht : Yields t s P s') (hu : Yields u b Q b') : Yields out whole (P ∧ Q) (mk s' b') := by
  intro c
  rw [parts]
  unfold both
  cases hts : t s with
  | error e s₁ =>
    have hP : ¬P := fun hP => by simpa [hts] using (ht s').mpr ⟨hP, rfl⟩
    simp [hP]
  | ok _ s₁ =>
    obtain ⟨hP, rfl⟩ := (ht s₁).mp hts
    cases hub : u b with
    | error e b₁ =>
      have hQ : ¬Q := fun hQ => by simpa [hub] using (hu b').mpr ⟨hQ, rfl⟩
      simp [hQ]
    | ok _ b₁ =>
      obtain ⟨hQ, rfl⟩ := (hu b₁).mp hub
      simp [hP, hQ, eq_comm]

theorem yields_update {f : σ → Except Error σ} (h : ∀ s'', f s = .ok s'' ↔ P ∧ s'' = s') :
    Yields (update f) s P s' := fun s'' => by
  rw [← h]
  unfold update
  cases f s <;> simp

theorem yields_edit (f : σ → σ) (s : σ) : Yields (edit f) s True (f s) := fun s'' => by
  change EStateM.Result.ok () (f s) = _ ↔ _
  simp [eq_comm]

theorem update_eq_ok_iff {f : σ → Except Error σ} : update f s = .ok () s' ↔ f s = .ok s' := by
  unfold update
  cases f s <;> simp

theorem determine_eq_ok_iff {α : Type} {q : σ → Except Error α} {a : α} :
    determine q s = .ok a s' ↔ q s = .ok a ∧ s' = s := by
  unfold determine
  cases q s <;> simp [eq_comm]

/-- What is determined has one value at most, and the link goes on with it. -/
theorem yields_determine {α : Type} {q : σ → Except Error α} {a : α} {k : α → Link σ Unit}
    (hq : ∀ b, q s = .ok b ↔ P ∧ b = a) (hk : Yields (k a) s Q s') :
    Yields (determine q >>= k) s (P ∧ Q) s' := by
  intro s''
  simp only [Yields.bind_eq_ok_iff, determine_eq_ok_iff, hq]
  constructor
  · rintro ⟨_, _, ⟨⟨hP, rfl⟩, rfl⟩, hs⟩
    exact ⟨⟨hP, ((hk s'').mp hs).1⟩, ((hk s'').mp hs).2⟩
  · rintro ⟨⟨hP, hQ⟩, rfl⟩
    exact ⟨a, s, ⟨⟨hP, rfl⟩, rfl⟩, (hk s'').mpr ⟨hQ, rfl⟩⟩

theorem yields_within (part : σ → β) (put : β → σ → σ) {step : Link β Unit} {b' : β}
    (h : Yields step (part s) P b') : Yields (within part put step) s P (put b' s) := fun s'' => by
  unfold within
  cases ht : step (part s) with
  | ok u b =>
    obtain ⟨hP, rfl⟩ := (h b).mp ht
    simp [hP, eq_comm]
  | error e b =>
    have hP : ¬P := fun hP => by simp [(h b').mpr ⟨hP, rfl⟩] at ht
    simp [hP]

theorem yields_each (wanted : β → Bool) {step : Link β Unit} {P : β → Prop} {next : β → β}
    (h : ∀ b, Yields step b (P b) (next b)) (bs : List β) :
    Yields (each wanted step) bs (∀ b ∈ bs, wanted b → P b)
      (bs.map fun b => if wanted b then next b else b) := by
  induction bs with
  | nil => exact fun s'' => (Yields.pure s'').trans (by simp)
  | cons b bs ih =>
    have first := Yields.ite (wanted b) (h b)
    exact (yields_both (each_cons wanted step b bs) first ih).congr (by simp) rfl

end Link

/-! ## Drafts -/

namespace Draft

/-- On `node` a draft goes through exactly if `P` holds and `news` can be registered; then it has
registered `news`, and `node'` has become of the node. -/
def Produces (t : Draft σ Unit) (node : σ) (P : Prop) (news : List Symbol) (node' : σ) : Prop :=
  ∀ r : Registry Symbol, Yields t (node, r) (P ∧ r.Admits news) (node', r.extend news)

variable {t : Draft σ Unit} {node node' node'' : σ} {P Q : Prop} {xs ys : List Symbol}

theorem Produces.congr (h : Produces t node P xs node') (hP : P ↔ Q) (hx : xs = ys)
    (hn : node' = node'') : Produces t node Q ys node'' :=
  fun r => (h r).congr (by rw [hP, hx]) (by rw [hx, hn])

theorem produces_pure : Produces (pure ()) node True [] node :=
  fun r => Yields.pure.congr (by simp) (by simp)

theorem Produces.seq {u : Draft σ Unit} (ht : Produces t node P xs node')
    (hu : Produces u node' Q ys node'') :
    Produces (t >>= fun _ => u) node (P ∧ Q) (xs ++ ys) node'' := fun r =>
  ((ht r).seq (hu (r.extend xs))).congr
    (by rw [Registry.admits_append]; tauto) (by rw [Registry.extend_append])

theorem produces_edit (f : σ → σ) (node : σ) :
    Produces (edit f) node True [] (f node) := fun r s'' => by
  change EStateM.Result.ok () (f node, r) = _ ↔ _
  simp [eq_comm]

/-- What is required holds of one value at most, and the draft goes on with it. -/
theorem produces_require {α : Type} {x : Except Error α} {a : α} {k : α → Draft σ Unit}
    (hx : ∀ b, x = .ok b ↔ P ∧ b = a) (hk : Produces (k a) node Q xs node') :
    Produces (require x >>= k) node (P ∧ Q) xs node' := fun r s'' => by
  rw [Yields.bind_eq_ok_iff]
  cases hxb : x with
  | error e =>
    have hP : ¬P := fun hP => by simpa [hxb] using (hx a).mpr ⟨hP, rfl⟩
    simp [require, Yields.throw_ne_ok, hP]
  | ok b =>
    obtain ⟨hP, rfl⟩ := (hx b).mp hxb
    simpa [require, Pure.pure, EStateM.pure, hP] using hk r s''

theorem produces_ask {α : Type} {q : σ → α} {k : α → Draft σ Unit}
    (hk : Produces (k (q node)) node P xs node') : Produces (ask q >>= k) node P xs node' :=
  fun r s'' => by
    rw [Yields.bind_eq_ok_iff]
    simpa [ask] using hk r s''

theorem produces_declare (s : Symbol) (node : σ) :
    Produces (declare s) node True [s] node := fun r s'' => by
  simp only [declare]
  cases h : r.declare s with
  | ok r' =>
    obtain ⟨ha, rfl⟩ := Registry.declare_eq_ok_iff.mp h
    simp [ha, eq_comm]
  | error e =>
    have ha : ¬r.Admits [s] := fun ha => by
      simpa [h] using Registry.declare_eq_ok_iff.mpr ⟨ha, rfl⟩
    simp [ha]

theorem produces_adopt (add : β → σ → σ) {child child' : β} {draft : Draft β Unit}
    (h : Produces draft child P xs child') :
    Produces (adopt add child draft) node P xs (add child' node) := fun r s'' => by
  simp only [adopt]
  cases ht : draft (child, r) with
  | ok u s =>
    obtain ⟨hP, rfl⟩ := (h r s).mp ht
    simp [hP, eq_comm]
  | error e s =>
    have hP : ¬(P ∧ r.Admits xs) := fun hP => by simpa [ht] using (h r _).mpr ⟨hP, rfl⟩
    simp [hP]

section Loop

variable {α : Type} {step : Nat → α → Draft σ Unit} (push : List β → σ → σ)
  (push_nil : ∀ n, push [] n = n) (push_cons : ∀ b bs n, push bs (push [b] n) = push (b :: bs) n)
  {P : α → Prop} {news : α → List Symbol} {part : Nat → α → β}

include push_nil push_cons

/-- A loop whose step puts one part into the node; `push` puts several parts into a node.  What the
step needs to know about the node is an invariant `I` of the loop. -/
theorem produces_forEach_inv (I : σ → Prop) (hI : ∀ b n, I n → I (push [b] n))
    (h : ∀ i a n, I n → Produces (step i a) n (P a) (news a) (push [part i a] n)) :
    ∀ (as : List α) (i : Nat) (node : σ), I node →
      Produces (forEach step i as) node (∀ a ∈ as, P a) (as.flatMap news)
        (push ((as.zipIdx i).map fun a => part a.2 a.1) node)
  | [], i, node, _ => produces_pure.congr (by simp) rfl (push_nil node).symm
  | a :: as, i, node, hn =>
    ((h i a node hn).seq (produces_forEach_inv I hI h as (i + 1) _ (hI _ _ hn))).congr
      (by simp) rfl (by simp [push_cons])

/-- A loop whose step needs to know nothing about the node. -/
theorem produces_forEach (h : ∀ i a n, Produces (step i a) n (P a) (news a) (push [part i a] n))
    (as : List α) (node : σ) :
    Produces (forEach step 0 as) node (∀ a ∈ as, P a) (as.flatMap news)
      (push (as.zipIdx.map fun a => part a.2 a.1) node) := by
  refine produces_forEach_inv push push_nil push_cons (fun _ => True) ?_ ?_ as 0 node trivial
  · exact fun _ _ _ => trivial
  · exact fun i a n _ => h i a n

end Loop

end Draft

end Protolink
