import Protolink.Draft
import Protolink.Proofs.Outcome

/-!
# Contracts of drafts

A contract says what a draft makes of a node, and what it leaves of it if it fails: from every node
of which `P` holds, the draft goes through with a node of which `Q` holds, or it fails and leaves
one of which `E` holds.  There is one rule for each way in which drafts are put together.  The
registry plays no part: it may decide whether a draft fails, and not what becomes of the node.
-/

namespace Protolink

variable {σ β α γ : Type}

namespace Draft

def Contract (P : σ → Prop) (t : Draft σ α) (Q : α → σ → Prop) (E : σ → Prop) : Prop :=
  ∀ node r, P node →
    match t (node, r) with
    | .ok a s => Q a s.1
    | .error _ s => E s.1

variable {P P' E : σ → Prop} {Q : α → σ → Prop}

/-- A contract for fewer nodes. -/
theorem Contract.restrict {t : Draft σ α} (h : Contract P t Q E) (hP : ∀ n, P' n → P n) :
    Contract P' t Q E := fun node r hn => h node r (hP node hn)

/-- Of what nothing is asked, nothing is promised. -/
theorem contract_any (P : σ → Prop) (t : Draft σ α) :
    Contract P t (fun _ _ => True) fun _ => True := by
  intro node r _
  cases t (node, r) <;> trivial

theorem contract_pure {a : α} (h : ∀ n, P n → Q a n) : Contract P (pure a) Q E :=
  fun node _ hn => h node hn

/-- The second draft starts where the first one leaves off, and either may fail. -/
theorem Contract.seq {t : Draft σ α} {u : α → Draft σ β} {R : β → σ → Prop}
    (ht : Contract P t Q E) (hu : ∀ a, Contract (Q a) (u a) R E) : Contract P (t >>= u) R E := by
  intro node r hn
  have first := ht node r hn
  change match EStateM.bind t u (node, r) with
    | .ok b s => R b s.1
    | .error _ s => E s.1
  unfold EStateM.bind
  cases hs : t (node, r) with
  | ok a s =>
    rw [hs] at first
    exact hu a s.1 s.2 first
  | error e s =>
    rw [hs] at first
    exact first

/-- What is required is missing and the node stays, or the draft goes on with it. -/
theorem contract_require {x : Except Error γ} {k : γ → Draft σ α} (stays : ∀ n, P n → E n)
    (hk : ∀ a, x = .ok a → Contract P (k a) Q E) : Contract P (require x >>= k) Q E := by
  cases x with
  | ok a => exact hk a rfl
  | error e => exact fun node _ hn => stays node hn

/-- What is read of a node is true of it for the rest of the draft, up to its next change. -/
theorem contract_ask {q : σ → γ} {k : γ → Draft σ α}
    (hk : ∀ a, Contract (fun n => P n ∧ q n = a) (k a) Q E) : Contract P (ask q >>= k) Q E :=
  fun node r hn => hk (q node) node r ⟨hn, rfl⟩

theorem contract_edit {f : σ → σ} {Q : Unit → σ → Prop} (h : ∀ n, P n → Q () (f n)) :
    Contract P (edit f) Q E := fun node _ hn => h node hn

/-- Whether a declaration is registered or not, the node stays. -/
theorem contract_declare (t : Symbol) (stays : ∀ n, P n → E n) :
    Contract P (declare t) (fun _ => P) E := by
  intro node r hn
  simp only [declare]
  cases r.declare t with
  | ok r' => exact hn
  | error e => exact stays node hn

/-- The owner takes the part as it is made, and as it is left. -/
theorem contract_adopt {add : β → σ → σ} {child : β} {draft : Draft β Unit} {C F : β → Prop}
    {Q : Unit → σ → Prop} (h : Contract (· = child) draft (fun _ => C) F)
    (made : ∀ c n, C c → P n → Q () (add c n)) (left : ∀ c n, F c → P n → E (add c n)) :
    Contract P (adopt add child draft) Q E := by
  intro node r hn
  have part := h child r rfl
  simp only [adopt]
  cases hs : draft (child, r) with
  | ok _ s =>
    rw [hs] at part
    exact made s.1 node part hn
  | error e s =>
    rw [hs] at part
    exact left s.1 node part hn

/-- A loop, with what holds of the node after the first elements of the list. -/
theorem contract_forEach (inv : List γ → σ → Prop) {step : Nat → γ → Draft σ Unit} {as : List γ}
    (h : ∀ front a back, as = front ++ a :: back →
      Contract (inv front) (step front.length a) (fun _ => inv (front ++ [a])) E) :
    Contract (inv []) (forEach step 0 as) (fun _ => inv as) E := by
  have loop (front back : List γ) (split : as = front ++ back) :
      Contract (inv front) (forEach step front.length back) (fun _ => inv as) E := by
    induction back generalizing front with
    | nil =>
      rw [split, List.append_nil]
      exact contract_pure fun _ hn => hn
    | cons a back ih =>
      refine (h front a back split).seq fun _ => ?_
      have rest := ih (front ++ [a]) (by rw [split, List.append_assoc]; rfl)
      rwa [List.length_append] at rest
  exact loop [] as rfl

/-- A loop through which a property is kept. -/
theorem contract_forEach_const {step : Nat → γ → Draft σ Unit} {as : List γ}
    (h : ∀ i, ∀ a ∈ as, Contract P (step i a) (fun _ => P) E) :
    Contract P (forEach step 0 as) (fun _ => P) E := by
  refine contract_forEach (fun _ => P) ?_
  rintro front a back rfl
  exact h _ a (List.mem_append_right _ List.mem_cons_self)

end Draft

end Protolink
