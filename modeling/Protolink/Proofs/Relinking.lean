import Protolink.Proofs.Tasks

/-!
# Linking a file again

Once a file is linked, its references are set, they mean something, and its messages hide their map
entries: the file is `Settled`.  It stays so, because registries only grow and because no link can
change it any more.  A further link of the file finds everything that it looks for and fails at the
first reference that it comes to, if it comes to one at all.  All that it changes is that the
imports of the file are listed once more.
-/

namespace Protolink

variable {σ τ ρ : Type}

/-! ## Links that change nothing -/

/-- The link leaves the node as it is.  If the node refers to anything it fails, because something
is set already, and otherwise it goes through. -/
def Stalls (refers : Prop) (t : Link σ Unit) (s : σ) : Prop :=
  (refers ∧ ∃ owner what, t s = .error (.alreadyResolved owner what) s) ∨ (¬refers ∧ t s = .ok () s)

section Rules

variable {P Q : Prop} {t : Link σ Unit} {s : σ}

theorem Stalls.leaves_eq (h : Stalls P t s) : leaves t s = s := by
  rcases h with ⟨-, owner, what, h⟩ | ⟨-, h⟩
  · rw [leaves, h, final]
  · rw [leaves, h, final]

theorem Stalls.congr (h : Stalls P t s) (iff : P ↔ Q) : Stalls Q t s := by
  rwa [← propext iff]

theorem Stalls.seq {u : Link σ Unit} (ht : Stalls P t s) (hu : Stalls Q u s) :
    Stalls (P ∨ Q) (t >>= fun _ => u) s := by
  change Stalls _ (EStateM.bind t fun _ => u) s
  unfold Stalls EStateM.bind
  rcases ht with ⟨hP, owner, what, ht⟩ | ⟨hP, ht⟩
  · rw [ht]
    exact .inl ⟨.inl hP, owner, what, rfl⟩
  · rw [ht]
    exact hu.imp (And.imp_left .inr) (And.imp_left (not_or_intro hP))

/-- The second step is not reached. -/
theorem Stalls.bind (h : Stalls True t s) (u : Unit → Link σ Unit) :
    Stalls True (t >>= u) s := by
  rcases h with ⟨-, owner, what, h⟩ | ⟨h, -⟩
  · exact .inl ⟨trivial, owner, what, Yields.bind_eq_error_iff.mpr (.inl h)⟩
  · exact absurd trivial h

/-- A step that is done only if it is wanted. -/
theorem Stalls.ite {wanted : Bool} (h : wanted = true → Stalls P t s) :
    Stalls (wanted = true ∧ P) (fun s => if wanted then t s else .ok () s) s := by
  cases wanted with
  | false => exact .inr ⟨fun h => Bool.false_ne_true h.1, rfl⟩
  | true => exact (h rfl).congr (and_iff_right rfl).symm

namespace Link

theorem stalls_within {part : σ → ρ} {put : ρ → σ → σ} {t : Link ρ Unit} {s : σ}
    (put_get : put (part s) s = s) (h : Stalls P t (part s)) : Stalls P (within part put t) s := by
  rcases h with ⟨hP, owner, what, h⟩ | ⟨hP, h⟩
  · exact .inl ⟨hP, owner, what, within_eq_error_iff.mpr ⟨_, h, put_get.symm⟩⟩
  · exact .inr ⟨hP, within_eq_ok_iff.mpr ⟨_, h, put_get.symm⟩⟩

/-- Two links on two parts of a whole, one after the other. -/
theorem stalls_both {mk : σ → τ → ρ} {u : Link τ Unit} {out : Link ρ Unit} {whole : ρ} {b : τ}
    (parts : out whole = both mk t s u b) (same : mk s b = whole) (ht : Stalls P t s)
    (hu : Stalls Q u b) : Stalls (P ∨ Q) out whole := by
  unfold Stalls
  rw [parts, ← same]
  unfold both
  rcases ht with ⟨hP, owner, what, ht⟩ | ⟨hP, ht⟩
  · rw [ht]
    exact .inl ⟨.inl hP, owner, what, rfl⟩
  · rw [ht]
    rcases hu with ⟨hQ, owner, what, hu⟩ | ⟨hQ, hu⟩
    · rw [hu]
      exact .inl ⟨.inr hQ, owner, what, rfl⟩
    · rw [hu]
      exact .inr ⟨not_or_intro hP hQ, rfl⟩

theorem stalls_each (wanted : σ → Bool) {P : σ → Prop} {bs : List σ}
    (h : ∀ b ∈ bs, wanted b = true → Stalls (P b) t b) :
    Stalls (∃ b ∈ bs, wanted b = true ∧ P b) (each wanted t) bs := by
  induction bs with
  | nil => exact .inr ⟨fun ⟨_, h, _⟩ => List.not_mem_nil h, rfl⟩
  | cons b bs ih =>
    rw [List.forall_mem_cons] at h
    refine (stalls_both (each_cons wanted t b bs) rfl (Stalls.ite h.1) (ih h.2)).congr ?_
    rw [List.exists_mem_cons_iff]

/-- A loop over all elements, which meets a reference in each. -/
theorem stalls_each_of_forall {bs : List σ} (h : ∀ b ∈ bs, Stalls True t b) :
    Stalls (bs ≠ []) (each (fun _ => true) t) bs := by
  refine (stalls_each (fun _ => true) fun b hb _ => h b hb).congr ?_
  cases bs <;> simp

theorem stalls_edit {f : σ → σ} (h : f s = s) : Stalls False (edit f) s :=
  .inr ⟨id, congrArg (EStateM.Result.ok ()) h⟩

/-- What is determined is known, and the step goes on with it. -/
theorem stalls_determine {α : Type} {q : σ → Except Error α} {k : α → Link σ Unit} {a : α}
    (hq : q s = .ok a) (h : Stalls P (k a) s) : Stalls P (determine q >>= k) s := by
  have run : (determine q >>= k) s = k a s := by
    change EStateM.bind _ _ s = _
    rw [EStateM.bind, determine, hq]
  rwa [Stalls, run]

theorem stalls_set {α : Type} {slot : σ → Slot α} {put : Slot α → σ → σ} {a : α}
    (h : (slot s).isSet = true) : Stalls True (set slot put a) s := by
  obtain ⟨b, hb⟩ := Option.isSome_iff_exists.mp h
  refine .inl ⟨trivial, (slot s).owner, (slot s).what, ?_⟩
  simp only [set, update, Slot.set, hb, bind, Except.bind]

end Link

end Rules

/-! ## Settled nodes -/

variable (r : Registry Symbol)

/-- The field is linked, and its references mean something. -/
structure Field.Settled (f : Field) : Prop where
  isSet : f.IsSet
  resolves : f.Resolves r

theorem Field.Settled.link_stalls {f : Field} (h : f.Settled r) : Stalls True (Field.link r) f := by
  have target := (Field.target_eq_ok_iff r (t := f.targetSymbol? r)).mpr ⟨h.resolves.target, rfl⟩
  refine Link.stalls_determine target (Stalls.bind (Stalls.bind ?_ _) _)
  exact Link.stalls_set h.isSet.enumType

/-- The method of the service `scope` is linked, and its types mean something. -/
structure Method.Settled (scope : String) (m : Method) : Prop where
  isSet : m.IsSet
  input : m.inputName ≠ "" ∧ (r.resolve [.message] scope m.inputName).isSome
  output : m.outputName ≠ "" ∧ (r.resolve [.message] scope m.outputName).isSome

theorem Method.Settled.link_stalls {scope : String} {m : Method} (h : m.Settled r scope) :
    Stalls True (Method.link r scope) m := by
  obtain ⟨i, hi⟩ := Option.isSome_iff_exists.mp h.input.2
  obtain ⟨o, ho⟩ := Option.isSome_iff_exists.mp h.output.2
  refine Link.stalls_determine ((Method.typeOf_eq_ok_iff r).mpr ⟨h.input.1, hi⟩) ?_
  refine Link.stalls_determine ((Method.typeOf_eq_ok_iff r).mpr ⟨h.output.1, ho⟩) ?_
  exact (Link.stalls_set h.isSet.input).bind _

namespace MessageBody

/-- All fields and extensions of the message are linked, and its map entries are hidden. -/
structure Settled (b : MessageBody) : Prop where
  fields : ∀ f ∈ b.fields, f.Settled r
  extensions : ∀ f ∈ b.extensions, f.Settled r
  hidesEntries : b.hidesEntries = true

/-- The message has a field or an extension in it. -/
def Refers (b : MessageBody) : Prop := b.fields ≠ [] ∨ b.extensions ≠ []

variable {r} in
theorem Settled.link_stalls {b : MessageBody} (h : b.Settled r) :
    Stalls b.Refers (MessageBody.link r) b := by
  have fields := Link.stalls_each_of_forall fun f hf => (h.fields f hf).link_stalls
  have extensions := Link.stalls_each_of_forall fun f hf => (h.extensions f hf).link_stalls
  have hides : { b with hidesEntries := true } = b := by rw [← h.hidesEntries]
  refine ((Link.stalls_within rfl fields).seq ((Link.stalls_within rfl extensions).seq
    (Link.stalls_edit hides))).congr ?_
  rw [or_false, Refers]

end MessageBody

namespace Message

variable {r}

mutual

theorem link_stalls : ∀ m : Message, m.ForListed (MessageBody.Settled r) →
    Stalls (∃ n ∈ m :: m.collect, n.Refers) (Message.link r) m
  | ⟨body, nested⟩, h => by
    rw [ForListed] at h
    refine (Link.stalls_both (link_mk r body nested) rfl (linkNested_stalls body nested h.1)
      h.2.link_stalls).congr ?_
    rw [List.exists_mem_cons_iff, collect, or_comm]

theorem linkNested_stalls (body : MessageBody) : ∀ ms : List Message,
    ForNested (MessageBody.Settled r) body ms →
    Stalls (∃ n ∈ collectFrom body ms, n.Refers) (Message.linkNested r body) ms
  | [], _ => .inr ⟨fun ⟨_, h, _⟩ => List.not_mem_nil h, rfl⟩
  | m :: ms, h => by
    rw [ForNested] at h
    refine (Link.stalls_both (linkNested_cons r body m ms) rfl
      (Stalls.ite fun hm => link_stalls m (h.1 hm)) (linkNested_stalls body ms h.2)).congr ?_
    simp only [collectFrom, List.mem_append, or_and_right, exists_or]
    refine or_congr ?_ Iff.rfl
    cases body.lists m.toMessageBody <;> simp

end

end Message

theorem Service.link_stalls {s : Service} (h : ∀ m ∈ s.methods, m.Settled r s.fullName) :
    Stalls (s.methods ≠ []) (Service.link r) s := by
  have methods := Link.stalls_each_of_forall fun m hm => (h m hm).link_stalls
  exact Link.stalls_within (s := s) rfl methods

namespace File

/-- Everything that is listed in the file is linked, and its imports are known. -/
structure Settled (f : File) : Prop where
  messages : ∀ m ∈ f.ownMessages, m.isComplete = true → m.ForListed (MessageBody.Settled r)
  services : ∀ s ∈ f.ownServices, s.isComplete = true → ∀ m ∈ s.methods, m.Settled r s.fullName
  extensions : ∀ x ∈ f.extensions, x.Settled r
  imports : ∃ ts, List.Forall₂ (fun n t => r.lookup .file n = some t) f.dependencyNames ts ∧
    ts <:+ f.dependencies

/-- The file has a field or an extension in a message that is listed, or a method, or an extension
at top level. -/
def Refers (f : File) : Prop :=
  (∃ m ∈ f.collectMessages, m.Refers) ∨ (∃ s ∈ f.services, s.methods ≠ []) ∨ f.extensions ≠ []

variable {r}

theorem Settled.linkNodes_stalls {f : File} (h : f.Settled r) :
    Stalls f.Refers (linkNodes r) f := by
  have messages := Link.stalls_each (·.isComplete) fun m hm complete =>
    Message.link_stalls m (h.messages m hm complete)
  have services := Link.stalls_each (·.isComplete) fun s hs complete =>
    Service.link_stalls r (h.services s hs complete)
  have extensions := Link.stalls_each_of_forall fun x hx => (h.extensions x hx).link_stalls
  refine ((Link.stalls_within rfl messages).seq ((Link.stalls_within rfl services).seq
    (Link.stalls_within rfl extensions))).congr ?_
  refine or_congr ?_ (or_congr ?_ Iff.rfl)
  · simp only [collectMessages, File.messages, List.mem_flatMap, List.mem_filter]
    constructor
    · rintro ⟨m, hm, complete, n, hn, refers⟩
      exact ⟨n, ⟨m, ⟨hm, complete⟩, hn⟩, refers⟩
    · rintro ⟨n, ⟨m, ⟨hm, complete⟩, hn⟩, refers⟩
      exact ⟨m, hm, complete, n, hn, refers⟩
  · simp only [File.services, List.mem_filter, and_assoc]

/-- What a link of a settled file makes of it. -/
def relinked (f : File) (ts : List Symbol) : File := { f with dependencies := f.dependencies ++ ts }

theorem filterMap_of_forall₂ {names : List String} {ts : List Symbol}
    (h : List.Forall₂ (fun n t => r.lookup .file n = some t) names ts) :
    names.filterMap (r.lookup .file) = ts := by
  induction h with
  | nil => rfl
  | cons hn _ ih => rw [List.filterMap_cons_some hn, ih]

end File

/-! ## A file is settled when it is linked -/

theorem Field.settled_linked {f : Field} (h : f.Resolves r) : (f.linked r).Settled r :=
  ⟨f.isSet_linked r, h.target, h.extendee⟩

theorem Method.settled_linked {scope : String} {m : Method} (h : m.Linkable r scope) :
    (m.linked r scope).Settled r scope := ⟨isSet_linked h, h.input, h.output⟩

theorem MessageBody.settled_linked {b : MessageBody} (h : b.Linkable r) :
    (b.linked r).Settled r := by
  refine ⟨List.forall_mem_map.mpr fun f hf => ?_, List.forall_mem_map.mpr fun f hf => ?_, rfl⟩
  · exact Field.settled_linked r (h.fields f hf).2
  · exact Field.settled_linked r (h.extensions f hf).2

namespace Message

mutual

/-- What is listed after a change was listed before, and was changed as well. -/
theorem forListed_mapListed {P Q : MessageBody → Prop} {g : MessageBody → MessageBody}
    (shrinks : ∀ b n, (g b).lists n = true → b.lists n = true) (hg : ∀ b, P b → Q (g b)) :
    ∀ m : Message, m.ForListed P → (m.mapListed g).ForListed Q
  | ⟨body, nested⟩, h => by
    rw [ForListed] at h
    rw [mapListed, ForListed]
    exact ⟨forNested_mapNested shrinks hg body nested h.1, hg body h.2⟩

theorem forNested_mapNested {P Q : MessageBody → Prop} {g : MessageBody → MessageBody}
    (shrinks : ∀ b n, (g b).lists n = true → b.lists n = true) (hg : ∀ b, P b → Q (g b))
    (body : MessageBody) : ∀ ms : List Message,
    ForNested P body ms → ForNested Q (g body) (mapNested g body ms)
  | [], _ => trivial
  | m :: ms, h => by
    rw [ForNested] at h
    rw [mapNested, ForNested]
    refine ⟨?_, forNested_mapNested shrinks hg body ms h.2⟩
    cases hm : body.lists m.toMessageBody with
    | true => exact fun _ => forListed_mapListed shrinks hg m (h.1 hm)
    | false =>
      intro lists
      exact absurd ((shrinks body _ lists).symm.trans hm) nofun

end

mutual

theorem ForListed.imp {P Q : MessageBody → Prop} (h : ∀ b, P b → Q b) :
    ∀ m : Message, m.ForListed P → m.ForListed Q
  | ⟨body, nested⟩, hm => by
    rw [ForListed] at hm ⊢
    exact ⟨ForNested.imp h body nested hm.1, h body hm.2⟩

theorem ForNested.imp {P Q : MessageBody → Prop} (h : ∀ b, P b → Q b) (body : MessageBody) :
    ∀ ms : List Message, ForNested P body ms → ForNested Q body ms
  | [], _ => trivial
  | m :: ms, hm => by
    rw [ForNested] at hm ⊢
    exact ⟨fun listed => ForListed.imp h m (hm.1 listed), ForNested.imp h body ms hm.2⟩

end

end Message

/-- Messages list less when they hide their map entries. -/
theorem MessageBody.lists_of_lists_linked {b n : MessageBody} (h : (b.linked r).lists n = true) :
    b.lists n = true := by
  simp only [lists, linked, Bool.and_eq_true, Bool.not_eq_true', Bool.true_and] at h ⊢
  exact ⟨h.1, by rw [h.2, Bool.and_false]⟩

namespace File

theorem settled_linked {f : File} (h : f.Linkable r) : (f.linked r).Settled r := by
  constructor
  · refine List.forall_mem_map.mpr fun m hm => ?_
    cases complete : m.isComplete with
    | false =>
      intro hc
      exact absurd (hc.symm.trans complete) nofun
    | true =>
      intro _
      exact Message.forListed_mapListed (fun _ _ => MessageBody.lists_of_lists_linked r)
        (fun _ => MessageBody.settled_linked r) m (h.messages m hm complete)
  · refine List.forall_mem_map.mpr fun s hs => ?_
    cases complete : s.isComplete with
    | false =>
      intro hc
      exact absurd (hc.symm.trans complete) nofun
    | true =>
      refine fun _ => List.forall_mem_map.mpr fun m hm => ?_
      exact Method.settled_linked r (h.services s hs complete m hm)
  · exact List.forall_mem_map.mpr fun x hx => Field.settled_linked r (h.extensions x hx).2
  · refine ⟨f.dependencyNames.filterMap (r.lookup .file), ?_, List.suffix_append _ _⟩
    refine forall₂_filterMap fun n hn => ?_
    obtain ⟨t, ht⟩ := Option.isSome_iff_exists.mp (h.dependencies n hn)
    exact ⟨t, ht, ht⟩

/-- A link of a settled file lists its imports once more, and then comes to its nodes. -/
theorem Settled.link_eq {f : File} (h : f.Settled r) : ∃ ts,
    List.Forall₂ (fun n t => r.lookup .file n = some t) f.dependencyNames ts ∧
    ts <:+ f.dependencies ∧ (f.relinked ts).Settled r ∧
    File.link r f = linkNodes r (f.relinked ts) := by
  obtain ⟨ts, found, listed⟩ := h.imports
  have known : ∀ n ∈ f.dependencyNames, (r.lookup .file n).isSome = true :=
    forall_mem_right_of_forall₂ found.flip fun t n hn => by rw [hn, Option.isSome_some]
  have settled : (f.relinked ts).Settled r :=
    ⟨h.messages, h.services, h.extensions, ts, found, List.suffix_append _ _⟩
  refine ⟨ts, found, listed, settled, ?_⟩
  rw [link_eq_linkNodes r known, filterMap_of_forall₂ found]
  rfl

end File

/-! ## A settled file stays settled -/

section Growing

variable {r r' : Registry Symbol} (grows : r.journal <+: r'.journal)

include grows

theorem Registry.lookup_of_isPrefix {kind : DeclKind} {key : String} {t : Symbol}
    (h : r.lookup kind key = some t) : r'.lookup kind key = some t := by
  rw [lookup, Option.map_eq_some_iff] at h ⊢
  obtain ⟨e, he, rfl⟩ := h
  exact ⟨e, grows.find?_eq_some he, rfl⟩

/-- What means something goes on to do so, although it may come to mean something else. -/
theorem Registry.isSome_resolve_of_isPrefix {kind : DeclKind} {scope typeName : String}
    (h : (r.resolve [kind] scope typeName).isSome = true) :
    (r'.resolve [kind] scope typeName).isSome = true := by
  rw [isSome_resolve_iff] at h ⊢
  obtain ⟨c, hc, h⟩ := h
  obtain ⟨t, ht⟩ := Option.isSome_iff_exists.mp h
  exact ⟨c, hc, Option.isSome_iff_exists.mpr ⟨t, lookup_of_isPrefix grows ht⟩⟩

theorem Field.Settled.mono {f : Field} (h : f.Settled r) : f.Settled r' := by
  refine ⟨h.isSet, fun kind hk => ?_, fun e he hne => ?_⟩
  · exact (h.resolves.target kind hk).imp_right (Registry.isSome_resolve_of_isPrefix grows)
  · exact Registry.isSome_resolve_of_isPrefix grows (h.resolves.extendee e he hne)

theorem Method.Settled.mono {scope : String} {m : Method} (h : m.Settled r scope) :
    m.Settled r' scope :=
  ⟨h.isSet, h.input.imp_right (Registry.isSome_resolve_of_isPrefix grows),
    h.output.imp_right (Registry.isSome_resolve_of_isPrefix grows)⟩

theorem File.Settled.mono {f : File} (h : f.Settled r) : f.Settled r' := by
  have bodies (b : MessageBody) (hb : b.Settled r) : b.Settled r' :=
    ⟨fun f hf => (hb.fields f hf).mono grows, fun f hf => (hb.extensions f hf).mono grows,
      hb.hidesEntries⟩
  constructor
  · exact fun m hm complete => Message.ForListed.imp bodies m (h.messages m hm complete)
  · exact fun s hs complete m hm => (h.services s hs complete m hm).mono grows
  · exact fun x hx => (h.extensions x hx).mono grows
  · obtain ⟨ts, found, listed⟩ := h.imports
    exact ⟨ts, found.imp fun _ _ hn => Registry.lookup_of_isPrefix grows hn, listed⟩

end Growing

namespace Schema

variable (scheme : ImportScheme) {s : Schema} {t : Symbol}

/-- The registry of a session only gets longer. -/
theorem journal_isPrefix_after (s : Schema) (step : Step) :
    s.registry.journal <+: (after scheme s step).registry.journal := by
  rcases registry_after scheme s step with ⟨news, h⟩ | ⟨kind, name, key, t, -, h⟩
  · rw [h]
    exact List.prefix_append _ _
  · rw [h]
    exact List.prefix_append _ _

/-- The file with the given symbol is settled. -/
def HasSettled (t : Symbol) (s : Schema) : Prop :=
  ∃ f ∈ s.files, f.symbol = t ∧ f.Settled s.registry

/-- A link that goes through settles its file. -/
theorem hasSettled_of_linkFile (hs : s.Indexed) {key : String}
    (ht : s.registry.lookup .file key = some t) {s' : Schema}
    (linked : linkFile key s = .ok () s') : HasSettled t s' := by
  obtain ⟨front, f, back, -, symbol, hlink⟩ := hs.linkFile_eq ht
  rw [hlink, Link.within_eq_ok_iff] at linked
  obtain ⟨g, hg, rfl⟩ := linked
  obtain ⟨linkable, rfl⟩ := (File.link_yields s.registry f g).mp hg
  refine ⟨f.linked s.registry, List.mem_append_right _ List.mem_cons_self, symbol, ?_⟩
  exact File.settled_linked s.registry linkable

/-- No step unsettles a file, not even one that links it again. -/
theorem HasSettled.after (h : HasSettled t s) (hs : s.Indexed) (step : Step) :
    HasSettled t (after scheme s step) := by
  obtain ⟨f, hf, symbol, settled⟩ := h
  have grows := journal_isPrefix_after scheme s step
  rcases hs.files_after scheme step with
    ⟨news, files⟩ | ⟨key, u, front, g, back, -, -, -, hfiles, left⟩
  · refine ⟨f, ?_, symbol, settled.mono grows⟩
    rw [files]
    exact List.mem_append_left _ hf
  · rw [left]
    rw [hfiles, List.mem_append, List.mem_cons] at hf
    rcases hf with hf | rfl | hf
    · exact ⟨f, List.mem_append_left _ hf, symbol, settled⟩
    · obtain ⟨ts, -, -, still, hlink⟩ := settled.link_eq
      have same : leaves (File.link s.registry) f = f.relinked ts := by
        rw [leaves, hlink]
        exact still.linkNodes_stalls.leaves_eq
      rw [same]
      exact ⟨f.relinked ts, List.mem_append_right _ List.mem_cons_self, symbol, still⟩
    · exact ⟨f, List.mem_append_right _ (List.mem_cons_of_mem _ hf), symbol, settled⟩

/-- A session in which a link of the file with the given symbol went through. -/
inductive Linked (t : Symbol) : Schema → Prop where
  | linked {steps : List Step} {key : String} {s : Schema}
    (found : (afterAll scheme {} steps).registry.lookup .file key = some t)
    (h : linkFile key (afterAll scheme {} steps) = .ok () s) : Linked t s
  | later {s : Schema} (h : Linked t s) (step : Step) : Linked t (after scheme s step)

variable {scheme}

theorem Linked.indexed (h : Linked scheme t s) : s.Indexed := by
  induction h with
  | @linked steps key s found h =>
    have indexed := (indexed_afterAll scheme .start steps).after scheme (.link key)
    rwa [after_eq_leaves, perform, leaves, h, final] at indexed
  | later _ step ih => exact ih.after scheme step

theorem Linked.laterAll (h : Linked scheme t s) (steps : List Step) :
    Linked scheme t (afterAll scheme s steps) := by
  induction steps generalizing s with
  | nil => exact h
  | cons step steps ih => exact ih (h.later step)

theorem Linked.hasSettled (h : Linked scheme t s) : HasSettled t s := by
  induction h with
  | linked found h => exact hasSettled_of_linkFile (indexed_afterAll scheme .start _) found h
  | later h step ih => exact ih.after scheme h.indexed step

/-- A further link of a file that was linked lists its imports once more and changes nothing else.
It goes through if the file refers to nothing, and otherwise it fails because a reference is set
already, whatever was declared and linked in between. -/
theorem linkFile_again (h : Linked scheme t s) {key : String}
    (ht : s.registry.lookup .file key = some t) :
    ∃ front f back ts, s.files = front ++ f :: back ∧ f.symbol = t ∧
      List.Forall₂ (fun n u => s.registry.lookup .file n = some u) f.dependencyNames ts ∧
      ts <:+ f.dependencies ∧
      ((f.Refers ∧ ∃ owner what, linkFile key s = .error (.alreadyResolved owner what)
          ⟨s.registry, front ++ f.relinked ts :: back⟩) ∨
        (¬f.Refers ∧ linkFile key s = .ok () ⟨s.registry, front ++ f.relinked ts :: back⟩)) := by
  obtain ⟨front, f, back, hfiles, symbol, hlink⟩ := h.indexed.linkFile_eq ht
  obtain ⟨g, hg, hsymbol, settled⟩ := h.hasSettled
  have hf : f ∈ s.files := hfiles ▸ List.mem_append_right _ List.mem_cons_self
  have same : f.name = g.name := congrArg Symbol.fullName (symbol.trans hsymbol.symm)
  obtain rfl := List.inj_on_of_nodup_map h.indexed.nodup hf hg same
  obtain ⟨ts, found, listed, still, again⟩ := settled.link_eq
  refine ⟨front, f, back, ts, hfiles, symbol, found, listed, ?_⟩
  rw [hlink]
  rcases still.linkNodes_stalls with ⟨refers, owner, what, failed⟩ | ⟨refers, done⟩
  · exact .inl ⟨refers, owner, what,
      Link.within_eq_error_iff.mpr ⟨_, again.trans failed, rfl⟩⟩
  · exact .inr ⟨refers, Link.within_eq_ok_iff.mpr ⟨_, again.trans done, rfl⟩⟩

/-- Steps that come after the link of a shop: the other file is linked as well, and the shop gets a
third key. -/
def laterSteps : List Step := [.link "base.proto", .registerAs .file "shop.proto" "wares.proto"]

/-- A shop is linked under its second key, and again under its third one. -/
theorem linkFile_again_shopSteps : ∃ t s s',
    (afterAll .bundled {} shopSteps).registry.lookup .file "goods.proto" = some t ∧
    linkFile "goods.proto" (afterAll .bundled {} shopSteps) = .ok () s ∧
    afterAll .bundled s laterSteps = s' ∧ s'.registry.lookup .file "wares.proto" = some t ∧
    ∃ front f back ts, s'.files = front ++ f :: back ∧ f.symbol = t ∧
      List.Forall₂ (fun n u => s'.registry.lookup .file n = some u) f.dependencyNames ts ∧
      ts <:+ f.dependencies ∧
      ((f.Refers ∧ ∃ owner what, linkFile "wares.proto" s' = .error (.alreadyResolved owner what)
          ⟨s'.registry, front ++ f.relinked ts :: back⟩) ∨
        (¬f.Refers ∧
          linkFile "wares.proto" s' = .ok () ⟨s'.registry, front ++ f.relinked ts :: back⟩)) := by
  let t := (shopFiles[0].node .bundled true).symbol
  have found : (afterAll .bundled {} shopSteps).registry.lookup .file "goods.proto" = some t := by
    decide +kernel
  have clean : fault? .bundled (afterAll .bundled {} shopSteps) (.link "goods.proto") = none := by
    decide +kernel
  have run := perform_of_fault?_eq_none .bundled clean
  rw [perform] at run
  have linked := (Linked.linked found run).laterAll laterSteps
  have again : (afterAll .bundled (after .bundled (afterAll .bundled {} shopSteps)
      (.link "goods.proto")) laterSteps).registry.lookup .file "wares.proto" = some t := by
    decide +kernel
  exact ⟨t, _, _, found, run, rfl, again, linkFile_again linked again⟩

end Schema

end Protolink
