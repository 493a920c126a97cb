import Protolink.Proofs.Linked

/-!
# What a step leaves

A step that fails keeps its node as far as it came.  `Moves R t` says that the step `t` leaves only
nodes that are related by `R` to the one that it starts from, whether it goes through or not, and
there is one rule for each way in which links are put together.  The rules ask of `R` that it is
reflexive where a step may stop at once, and transitive where one step follows another.

`seen q` is a result of which only a part or an image of the node is looked at.

`Faults t s` says of the errors that the step `t` ends with on `s` that they are faults of the
descriptors.
-/

namespace Protolink

variable {ε σ τ β α : Type}

/-- The node in a result, whether it is one of success or of failure. -/
def final : EStateM.Result ε σ α → σ
  | .ok _ s => s
  | .error _ s => s

/-- What a step leaves. -/
def leaves (t : EStateM ε σ α) (s : σ) : σ := final (t s)

theorem leaves_seq (t : EStateM ε σ α) (u : α → EStateM ε σ β) (s : σ) :
    (∃ a s', t s = .ok a s' ∧ leaves (t >>= u) s = leaves (u a) s') ∨
      ∃ e s', t s = .error e s' ∧ leaves (t >>= u) s = s' := by
  change (∃ a s', t s = .ok a s' ∧ final (EStateM.bind t u s) = final (u a s')) ∨
    ∃ e s', t s = .error e s' ∧ final (EStateM.bind t u s) = s'
  unfold EStateM.bind
  cases h : t s with
  | ok a s' => exact .inl ⟨a, s', rfl, rfl⟩
  | error e s' => exact .inr ⟨e, s', rfl, rfl⟩

/-- A result with what is seen of the node in it. -/
def seen (q : σ → τ) : EStateM.Result ε σ α → EStateM.Result ε τ α
  | .ok a s => .ok a (q s)
  | .error e s => .error e (q s)

theorem seen_eq_ok_iff {q : σ → τ} {r : EStateM.Result ε σ α} {a : α} {t : τ} :
    seen q r = .ok a t ↔ ∃ s, r = .ok a s ∧ q s = t := by
  cases r with
  | ok a' s => simp [seen, and_comm]
  | error e s => simp [seen]

theorem seen_eq_error_iff {q : σ → τ} {r : EStateM.Result ε σ α} {e : ε} {t : τ} :
    seen q r = .error e t ↔ ∃ s, r = .error e s ∧ q s = t := by
  cases r with
  | ok a s => simp [seen]
  | error e' s => simp [seen, and_comm]

/-- What is seen of a step followed by another, if this is so of each of them. -/
theorem seen_seq {q : σ → τ} {t : EStateM ε σ α} {t' : EStateM ε τ α} {u : α → EStateM ε σ β}
    {u' : α → EStateM ε τ β} {s : σ} (ht : seen q (t s) = t' (q s))
    (hu : ∀ a s, seen q (u a s) = u' a (q s)) :
    seen q ((t >>= u) s) = (t' >>= u') (q s) := by
  change seen q (EStateM.bind t u s) = EStateM.bind t' u' (q s)
  unfold EStateM.bind
  rw [← ht]
  cases t s with
  | ok a s' => exact hu a s'
  | error e s' => rfl

/-- On this node a step fails only with a fault of the descriptors. -/
def Faults (t : EStateM Error σ α) (s : σ) : Prop :=
  ∀ e s', t s = .error e s' → e.isDescriptorFault = true

theorem faults_of_ok {t : EStateM Error σ α} {a : α} {s s' : σ} (h : t s = .ok a s') :
    Faults t s := by
  intro e s₁ he
  rw [h] at he
  exact absurd he nofun

theorem faults_of_error {t : EStateM Error σ α} {e : Error} {s s' : σ} (h : t s = .error e s')
    (he : e.isDescriptorFault = true) : Faults t s := by
  intro e₁ s₁ he₁
  obtain ⟨rfl, -⟩ := EStateM.Result.error.inj (h.symm.trans he₁)
  exact he

/-- The second step is asked about where the first one leaves off. -/
theorem Faults.seq {t : EStateM Error σ α} {u : α → EStateM Error σ β} {s : σ} (ht : Faults t s)
    (hu : ∀ a s', t s = .ok a s' → Faults (u a) s') : Faults (t >>= u) s := by
  intro e s' h
  change EStateM.bind t u s = .error e s' at h
  unfold EStateM.bind at h
  cases hts : t s with
  | ok a s₁ =>
    rw [hts] at h
    exact hu a s₁ hts e s' h
  | error e₁ s₁ =>
    rw [hts] at h
    obtain ⟨rfl, -⟩ := EStateM.Result.error.inj h
    exact ht e₁ s₁ hts

def Moves (R : σ → σ → Prop) (t : EStateM ε σ α) : Prop := ∀ s, R s (leaves t s)

section Rules

variable {R : σ → σ → Prop} (refl : ∀ s, R s s) (trans : ∀ a b c, R a b → R b c → R a c)

include trans in
theorem Moves.seq {t : EStateM ε σ α} {u : α → EStateM ε σ β} (ht : Moves R t)
    (hu : ∀ a, Moves R (u a)) : Moves R (t >>= u) := by
  intro s
  have first := ht s
  rcases leaves_seq t u s with ⟨a, s', h, hs⟩ | ⟨e, s', h, hs⟩
  · rw [leaves, h] at first
    rw [hs]
    exact trans s s' _ first (hu a s')
  · rw [leaves, h] at first
    rw [hs]
    exact first

include refl trans in
theorem Moves.forM {step : α → EStateM ε σ Unit} (h : ∀ a, Moves R (step a)) :
    ∀ as : List α, Moves R (as.forM step)
  | [] => refl
  | a :: as => Moves.seq trans (h a) fun _ => Moves.forM h as

include refl in
/-- A step that is done only if it is wanted. -/
theorem related_ite {t : EStateM ε σ Unit} {s : σ} (c : Bool) (h : R s (leaves t s)) :
    R s (final (if c then t s else .ok () s)) := by
  cases c with
  | true => exact h
  | false => exact refl s

namespace Link

/-- A node is replaced, or it stays as it is. -/
theorem leaves_update (f : σ → Except Error σ) (s : σ) :
    update f s = .ok () (leaves (update f) s) ∨ leaves (update f) s = s := by
  unfold leaves update
  cases f s with
  | ok s' => exact .inl rfl
  | error e => exact .inr rfl

include refl in
theorem moves_update {f : σ → Except Error σ} (h : ∀ s s', f s = .ok s' → R s s') :
    Moves R (update f) := by
  intro s
  rcases leaves_update f s with hs | hs
  · exact h s _ (update_eq_ok_iff.mp hs)
  · rw [hs]
    exact refl s

/-- A slot is set if it is empty, or else it is set already and nothing changes. -/
theorem leaves_set {α : Type} (slot : σ → Slot α) (put : Slot α → σ → σ) (a : α) (s : σ) :
    ((slot s).value? = none ∧
      leaves (set slot put a) s = put { slot s with value? := some a } s) ∨
    ((slot s).isSet = true ∧ leaves (set slot put a) s = s) := by
  cases h : (slot s).value? with
  | none =>
    have done := (yields_set slot put a s _).mpr ⟨h, rfl⟩
    exact .inl ⟨rfl, by rw [leaves, done, final]⟩
  | some b =>
    refine .inr ⟨by simp only [Slot.isSet, h, Option.isSome], ?_⟩
    simp only [leaves, set, update, Slot.set, h, bind, Except.bind, final]

/-- Of two slots that are set one after the other, both are empty and both are set, or the first one
is set alone because the second one is set already, or nothing changes. -/
theorem leaves_set_set {α : Type} (slot : σ → Slot α) (put : Slot α → σ → σ)
    (slot' : σ → Slot α) (put' : Slot α → σ → σ) (other : ∀ x s, slot' (put x s) = slot' s)
    (a b : α) (s : σ) :
    ((slot s).value? = none ∧ (slot' s).value? = none ∧
      leaves (set slot put a >>= fun _ => set slot' put' b) s =
        put' { slot' s with value? := some b } (put { slot s with value? := some a } s)) ∨
    ((slot s).value? = none ∧ (slot' s).isSet = true ∧
      leaves (set slot put a >>= fun _ => set slot' put' b) s =
        put { slot s with value? := some a } s) ∨
    leaves (set slot put a >>= fun _ => set slot' put' b) s = s := by
  rcases leaves_seq (set slot put a) (fun _ => set slot' put' b) s with
    ⟨_, s', hs', h⟩ | ⟨e, s', hs', h⟩
  · obtain ⟨first, rfl⟩ := (yields_set slot put a s s').mp hs'
    rw [h]
    rcases leaves_set slot' put' b (put { slot s with value? := some a } s) with hs | hs
    · rw [other] at hs
      exact .inl ⟨first, hs⟩
    · rw [other] at hs
      exact .inr (.inl ⟨first, hs⟩)
  · rcases leaves_set slot put a s with ⟨first, -⟩ | ⟨-, hs⟩
    · rw [(yields_set slot put a s _).mpr ⟨first, rfl⟩] at hs'
      exact absurd hs' nofun
    · rw [leaves, hs', final] at hs
      exact .inr (.inr (h.trans hs))

include refl in
/-- To determine something changes nothing. -/
theorem moves_determine {α : Type} (q : σ → Except Error α) {k : α → Link σ Unit} {s : σ}
    (h : ∀ a, q s = .ok a → R s (leaves (k a) s)) : R s (leaves (determine q >>= k) s) := by
  rcases leaves_seq (determine q) k s with ⟨a, s', hq, hs⟩ | ⟨e, s', hq, hs⟩
  · obtain ⟨ha, rfl⟩ := determine_eq_ok_iff.mp hq
    rw [hs]
    exact h a ha
  · have stays : s' = s := by
      unfold determine at hq
      cases hqs : q s <;> simp_all
    rw [hs, stays]
    exact refl s

theorem leaves_within (part : σ → β) (put : β → σ → σ) (step : Link β Unit) (s : σ) :
    leaves (within part put step) s = put (leaves step (part s)) s := by
  unfold leaves within
  cases step (part s) <;> rfl

theorem moves_edit {f : σ → σ} (h : ∀ s, R s (f s)) : Moves R (edit f) := h

theorem moves_within {part : σ → β} {put : β → σ → σ} {Rb : β → β → Prop} {step : Link β Unit}
    (h : Moves Rb step) (hput : ∀ s b, Rb (part s) b → R s (put b s)) :
    Moves R (within part put step) := by
  intro s
  rw [leaves_within]
  exact hput s _ (h (part s))

/-- Of two parts of a whole, the second one stays as it is if the first link fails. -/
theorem related_both {Rt : τ → τ → Prop} {Rw : β → β → Prop} {mk : σ → τ → β} {t : Link σ Unit}
    {u : Link τ Unit} {out : Link β Unit} {whole : β} {s : σ} {b : τ}
    (parts : out whole = both mk t s u b) (hmk : ∀ s' b', R s s' → Rt b b' → Rw whole (mk s' b'))
    (stays : Rt b b) (ht : R s (leaves t s)) (hu : Rt b (leaves u b)) :
    Rw whole (leaves out whole) := by
  rw [leaves, parts]
  unfold both
  unfold leaves at ht hu
  cases hts : t s with
  | error e s' =>
    rw [hts] at ht
    exact hmk s' b ht stays
  | ok _ s' =>
    rw [hts] at ht
    cases hub : u b <;> rw [hub] at hu <;> exact hmk s' _ ht hu

include refl in
/-- A loop over the elements of a list leaves what its steps leave of each of them. -/
theorem moves_each (wanted : σ → Bool) {step : Link σ Unit} (h : Moves R step) :
    Moves (List.Forall₂ R) (each wanted step) := by
  intro bs
  induction bs with
  | nil => exact .nil
  | cons b bs ih =>
    refine related_both (each_cons wanted step b bs) (fun _ _ hb hbs => .cons hb hbs) ?_ ?_ ih
    · exact List.forall₂_same.mpr fun b _ => refl b
    · exact related_ite refl (wanted b) (h b)

end Link

end Rules

/-! ## What linking leaves alone -/

/-- The field with its references open. -/
def Field.unlinked (f : Field) : Field :=
  { f with
    enumType := { f.enumType with value? := none }
    message := { f.message with value? := none }
    extendee := { f.extendee with value? := none } }

def Method.unlinked (m : Method) : Method :=
  { m with
    input := { m.input with value? := none }
    output := { m.output with value? := none } }

def Service.unlinked (s : Service) : Service :=
  { s with methods := s.methods.map Method.unlinked }

/-- The body with the references in it open, and with its map entries listed. -/
def MessageBody.unlinked (b : MessageBody) : MessageBody :=
  { b with
    fields := b.fields.map Field.unlinked
    extensions := b.extensions.map Field.unlinked
    hidesEntries := false }

namespace Message

mutual

/-- Changes the bodies of a message and of all messages inside it. -/
def map (g : MessageBody → MessageBody) : Message → Message
  | ⟨body, nested⟩ => ⟨g body, mapOf g nested⟩

def mapOf (g : MessageBody → MessageBody) : List Message → List Message
  | [] => []
  | m :: ms => m.map g :: mapOf g ms

end

theorem mapOf_eq_map (g : MessageBody → MessageBody) (ms : List Message) :
    mapOf g ms = ms.map (map g) := by
  induction ms with
  | nil => rfl
  | cons m ms ih => rw [mapOf, ih, List.map_cons]

@[simp] theorem toMessageBody_map (g : MessageBody → MessageBody) (m : Message) :
    (m.map g).toMessageBody = g m.toMessageBody := by
  cases m
  rw [map]

mutual

theorem map_map (g k : MessageBody → MessageBody) : ∀ m : Message, (m.map g).map k = m.map (k ∘ g)
  | ⟨body, nested⟩ => by
    rw [map, map, map, mapOf_mapOf g k nested]
    rfl

theorem mapOf_mapOf (g k : MessageBody → MessageBody) : ∀ ms : List Message,
    mapOf k (mapOf g ms) = mapOf (k ∘ g) ms
  | [] => rfl
  | m :: ms => by
    rw [mapOf, mapOf, mapOf, map_map g k m, mapOf_mapOf g k ms]

end

mutual

/-- A change that changes none of the bodies in a message does not change the message. -/
theorem map_eq_self (g : MessageBody → MessageBody) : ∀ m : Message,
    (∀ n ∈ m.all, g n.toMessageBody = n.toMessageBody) → m.map g = m
  | ⟨body, nested⟩, h => by
    obtain ⟨hbody, hnested⟩ := forall_mem_all_iff.mp h
    rw [map, hbody, mapOf_eq_self g nested hnested]

theorem mapOf_eq_self (g : MessageBody → MessageBody) : ∀ ms : List Message,
    (∀ n ∈ allOf ms, g n.toMessageBody = n.toMessageBody) → mapOf g ms = ms
  | [], _ => rfl
  | m :: ms, h => by
    rw [allOf, List.forall_mem_append] at h
    rw [mapOf, map_eq_self g m h.1, mapOf_eq_self g ms h.2]

end

mutual

theorem all_map (g : MessageBody → MessageBody) : ∀ m : Message,
    (m.map g).all = m.all.map (map g)
  | ⟨body, nested⟩ => by
    rw [map, all, all, List.map_cons, allOf_mapOf g nested, map]

theorem allOf_mapOf (g : MessageBody → MessageBody) : ∀ ms : List Message,
    allOf (mapOf g ms) = (allOf ms).map (map g)
  | [] => rfl
  | m :: ms => by
    rw [mapOf, allOf, allOf, List.map_append, all_map g m, allOf_mapOf g ms]

end

theorem allOf_map (g : MessageBody → MessageBody) (ms : List Message) :
    allOf (ms.map (map g)) = (allOf ms).map (map g) := by
  rw [← mapOf_eq_map, allOf_mapOf]

def unlinked (m : Message) : Message := m.map MessageBody.unlinked

theorem unlinked_mk (body : MessageBody) (nested : List Message) :
    unlinked ⟨body, nested⟩ = ⟨body.unlinked, nested.map unlinked⟩ := by
  rw [unlinked, map, mapOf_eq_map]
  rfl

end Message

namespace File

/-- The file as it was before any reference in it was followed. -/
def unlinked (f : File) : File :=
  { f with
    dependencies := []
    ownMessages := f.ownMessages.map Message.unlinked
    ownServices := f.ownServices.map Service.unlinked
    extensions := f.extensions.map Field.unlinked }

end File

/-- A relation between nodes of which a function makes the same. -/
abbrev Alike {γ : Type} (q : σ → γ) (s s' : σ) : Prop := q s' = q s

theorem map_alike {γ : Type} {q : σ → γ} {as bs : List σ} (h : List.Forall₂ (Alike q) as bs) :
    bs.map q = as.map q := by
  induction h with
  | nil => rfl
  | cons hab _ ih => rw [List.map_cons, List.map_cons, hab, ih]

end Protolink
