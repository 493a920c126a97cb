import Protolink.Declare
import Protolink.Proofs.Outcome

/-!
# Steps that are seen to do the same

`Mirrored q t t'` says of two steps that `t'` does to what is seen of a node through `q` what `t`
does to the node, whether they go through or fail, and with the same answer or error.  There is one
rule for each way in which drafts and links are put together.  A draft is seen through a view of its
node and a view of the registry, which need to have nothing to do with each other.
-/

namespace Protolink

variable {ε σ τ α β γ : Type}

def Mirrored (q : σ → τ) (t : EStateM ε σ α) (t' : EStateM ε τ α) : Prop :=
  ∀ s, seen q (t s) = t' (q s)

section Rules

variable {q : σ → τ}

theorem mirrored_pure (a : α) : Mirrored q (pure a : EStateM ε σ α) (pure a) := fun _ => rfl

theorem mirrored_throw (e : ε) : Mirrored q (throw e : EStateM ε σ α) (throw e) := fun _ => rfl

theorem Mirrored.seq {t : EStateM ε σ α} {t' : EStateM ε τ α} {u : α → EStateM ε σ β}
    {u' : α → EStateM ε τ β} (ht : Mirrored q t t') (hu : ∀ a, Mirrored q (u a) (u' a)) :
    Mirrored q (t >>= u) (t' >>= u') :=
  fun s => seen_seq (ht s) hu

/-- The whole node may be asked for. -/
theorem mirrored_get {k : σ → EStateM ε σ α} {k' : τ → EStateM ε τ α}
    (hk : ∀ s, Mirrored q (k s) (k' (q s))) : Mirrored q (get >>= k) (get >>= k') :=
  fun s => hk s s

theorem mirrored_forM {step : α → EStateM ε σ Unit} {step' : γ → EStateM ε τ Unit} {g : α → γ}
    (h : ∀ a, Mirrored q (step a) (step' (g a))) :
    ∀ as : List α, Mirrored q (as.forM step) ((as.map g).forM step')
  | [] => mirrored_pure ()
  | a :: as => (h a).seq fun _ => mirrored_forM h as

theorem mirrored_forM_self {step : α → EStateM ε σ Unit} {step' : α → EStateM ε τ Unit}
    (h : ∀ a, Mirrored q (step a) (step' a)) (as : List α) :
    Mirrored q (as.forM step) (as.forM step') := by
  have same := mirrored_forM (g := id) h as
  rwa [List.map_id] at same

end Rules

/-! ## Drafts -/

namespace Draft

variable {q : σ → τ} {h : Registry Symbol → Registry Symbol}

/-- What is required is made from another requirement, with the same error. -/
theorem mirrored_require {x : Except Error α} {x' : Except Error γ} {g : α → γ}
    {k : α → Draft σ β} {k' : γ → Draft τ β} (hx : x.map g = x')
    (hk : ∀ a, Mirrored (Prod.map q h) (k a) (k' (g a))) :
    Mirrored (Prod.map q h) (require x >>= k) (require x' >>= k') := by
  subst hx
  cases x with
  | ok a => exact hk a
  | error e => exact fun _ => rfl

theorem mirrored_require_self {x : Except Error α} {k : α → Draft σ β} {k' : α → Draft τ β}
    (hk : ∀ a, Mirrored (Prod.map q h) (k a) (k' a)) :
    Mirrored (Prod.map q h) (require x >>= k) (require x >>= k') := by
  cases x with
  | ok a => exact hk a
  | error e => exact fun _ => rfl

theorem mirrored_ask {p : σ → α} {p' : τ → γ} {k : α → Draft σ β} {k' : γ → Draft τ β}
    (hk : ∀ n, Mirrored (Prod.map q h) (k (p n)) (k' (p' (q n)))) :
    Mirrored (Prod.map q h) (ask p >>= k) (ask p' >>= k') :=
  fun s => hk s.1 s

theorem mirrored_edit {f : σ → σ} {f' : τ → τ} (hf : ∀ n, q (f n) = f' (q n)) :
    Mirrored (Prod.map q h) (edit f) (edit f') := by
  rintro ⟨node, r⟩
  change EStateM.Result.ok () (q (f node), h r) = .ok () (f' (q node), h r)
  rw [hf]

theorem mirrored_declare {s s' : Symbol}
    (hs : ∀ r : Registry Symbol, (r.declare s).map h = (h r).declare s') :
    Mirrored (Prod.map q h) (declare s) (declare s') := by
  rintro ⟨node, r⟩
  have seenDeclare : (h r).declare s' = (r.declare s).map h := (hs r).symm
  simp only [declare, Prod.map, seenDeclare]
  cases r.declare s <;> rfl

/-- A part of the node is seen for itself. -/
theorem mirrored_adopt {p : β → γ} {add : β → σ → σ} {add' : γ → τ → τ} {child : β} {child' : γ}
    {draft : Draft β Unit} {draft' : Draft γ Unit} (hdraft : Mirrored (Prod.map p h) draft draft')
    (hchild : p child = child') (hadd : ∀ c n, q (add c n) = add' (p c) (q n)) :
    Mirrored (Prod.map q h) (adopt add child draft) (adopt add' child' draft') := by
  subst hchild
  rintro ⟨node, r⟩
  have part : draft' (p child, h r) = seen (Prod.map p h) (draft (child, r)) :=
    (hdraft (child, r)).symm
  simp only [adopt, Prod.map, part]
  cases draft (child, r) with
  | ok _ s =>
    change EStateM.Result.ok () (q (add s.1 node), h s.2) = .ok () (add' (p s.1) (q node), h s.2)
    rw [hadd]
  | error e s =>
    change EStateM.Result.error e (q (add s.1 node), h s.2) =
      .error e (add' (p s.1) (q node), h s.2)
    rw [hadd]

theorem mirrored_forEach {step : Nat → α → Draft σ Unit} {step' : Nat → γ → Draft τ Unit}
    {g : α → γ} (hstep : ∀ i a, Mirrored (Prod.map q h) (step i a) (step' i (g a))) (i : Nat)
    (as : List α) : Mirrored (Prod.map q h) (forEach step i as) (forEach step' i (as.map g)) := by
  induction as generalizing i with
  | nil => exact mirrored_pure ()
  | cons a as ih => exact (hstep i a).seq fun _ => ih (i + 1)

theorem mirrored_forEach_self {step : Nat → α → Draft σ Unit} {step' : Nat → α → Draft τ Unit}
    (hstep : ∀ i a, Mirrored (Prod.map q h) (step i a) (step' i a)) (i : Nat) (as : List α) :
    Mirrored (Prod.map q h) (forEach step i as) (forEach step' i as) := by
  have same := mirrored_forEach (g := id) hstep i as
  rwa [List.map_id] at same

end Draft

/-! ## Links -/

/-- The slot with another value, if there is one. -/
def Slot.map (m : α → γ) (s : Slot α) : Slot γ := ⟨s.owner, s.what, s.value?.map m⟩

theorem Slot.get_map (m : α → γ) (s : Slot α) : (s.map m).get = s.get.map m := by
  unfold get map
  cases s.value? <;> rfl

theorem Slot.map_map (m : α → β) (m' : β → γ) (s : Slot α) :
    (s.map m).map m' = s.map (m' ∘ m) := by
  rw [map, map, map, Option.map_map]

theorem Slot.map_set (m : α → γ) (s : Slot α) (a : α) :
    (s.set a).map (Slot.map m) = (s.map m).set (m a) := by
  unfold set map
  cases s.value? <;> rfl

namespace Link

variable {q : σ → τ}

theorem mirrored_update {f : σ → Except Error σ} {f' : τ → Except Error τ}
    (hf : ∀ s, (f s).map q = f' (q s)) : Mirrored q (update f) (update f') := by
  intro s
  simp only [update, ← hf]
  cases f s <;> rfl

theorem mirrored_edit {f : σ → σ} {f' : τ → τ} (hf : ∀ s, q (f s) = f' (q s)) :
    Mirrored q (edit f) (edit f') :=
  fun s => congrArg (EStateM.Result.ok ()) (hf s)

theorem mirrored_determine {p : σ → Except Error α} {p' : τ → Except Error γ} {m : α → γ}
    {k : α → Link σ β} {k' : γ → Link τ β} (hp : ∀ s, (p s).map m = p' (q s))
    (hk : ∀ a, Mirrored q (k a) (k' (m a))) :
    Mirrored q (determine p >>= k) (determine p' >>= k') := by
  intro s
  change seen q (EStateM.bind _ _ s) = EStateM.bind _ _ (q s)
  simp only [EStateM.bind, determine, ← hp]
  cases p s with
  | ok a => exact hk a s
  | error e => rfl

theorem mirrored_set {slot : σ → Slot α} {put : Slot α → σ → σ} {slot' : τ → Slot γ}
    {put' : Slot γ → τ → τ} {m : α → γ} (hslot : ∀ s, slot' (q s) = (slot s).map m)
    (hput : ∀ x s, q (put x s) = put' (x.map m) (q s)) (a : α) :
    Mirrored q (set slot put a) (set slot' put' (m a)) := by
  refine mirrored_update fun s => ?_
  rw [hslot, ← Slot.map_set]
  cases (slot s).set a with
  | ok x => exact congrArg Except.ok (hput x s)
  | error e => rfl

/-- A part of the node is seen for itself. -/
theorem mirrored_within {p : β → γ} {part : σ → β} {put : β → σ → σ} {part' : τ → γ}
    {put' : γ → τ → τ} {step : Link β Unit} {step' : Link γ Unit} (hstep : Mirrored p step step')
    (hpart : ∀ s, part' (q s) = p (part s)) (hput : ∀ b s, q (put b s) = put' (p b) (q s)) :
    Mirrored q (within part put step) (within part' put' step') := by
  intro s
  simp only [within, hpart, ← hstep (part s)]
  cases step (part s) <;> simp only [seen, hput]

/-- The elements that are wanted are seen one by one. -/
theorem mirrored_each {wanted : σ → Bool} {wanted' : τ → Bool} {step : Link σ Unit}
    {step' : Link τ Unit} (hstep : Mirrored q step step')
    (hwanted : ∀ b, wanted' (q b) = wanted b) :
    Mirrored (List.map q) (each wanted step) (each wanted' step') := by
  intro bs
  induction bs with
  | nil => rfl
  | cons b bs ih =>
    have first : (if wanted' (q b) then step' (q b) else .ok () (q b)) =
        seen q (if wanted b then step b else .ok () b) := by
      rw [hwanted]
      cases wanted b with
      | false => rfl
      | true => exact (hstep b).symm
    rw [List.map_cons, each, each, first]
    cases (if wanted b then step b else .ok () b) with
    | error e b' => rfl
    | ok _ b' =>
      simp only [seen, ← ih]
      cases each wanted step bs <;> rfl

end Link

end Protolink
