import Protolink.Proofs.Drafting
import Protolink.Proofs.Tables

/-!
# The registry as a journal

Registrations are calls, of which some are refused.  What a registry holds can be told from its
calls alone: of the calls with one kind and one key it keeps the first, and it keeps them in the
order of the calls.  The tables of different kinds know nothing of each other, because a registry
can be restricted to a kind before or after it is called.

The steps of a session call the registry many times and stop in between.  They only ever append to
the journal, and under any key they register only what is, or is going to be, registered under its
own name.
-/

namespace Protolink

namespace Registry

variable {α : Type}

/-! ## Calls -/

/-- Whether a call is for a key that an earlier call was for. -/
def Entry.clashes (c earlier : Entry α) : Bool := earlier.kind == c.kind && earlier.key == c.key

/-- The registry that a call leaves, which may be refused. -/
def attempt (r : Registry α) (c : Entry α) : Registry α :=
  match r.register c.kind c.key c.value with
  | .ok r' => r'
  | .error _ => r

/-- The registry that several calls leave. -/
def attemptAll (r : Registry α) (calls : List (Entry α)) : Registry α := calls.foldl attempt r

/-- The registry without the tables of other kinds. -/
def restrict (r : Registry α) (kind : DeclKind) : Registry α := ⟨r.journal.filter (·.kind == kind)⟩

theorem isSome_lookup_eq_any (r : Registry α) (c : Entry α) :
    (r.lookup c.kind c.key).isSome = r.journal.any c.clashes := by
  rw [lookup, Option.isSome_map, List.isSome_find?]
  rfl

/-- A call is refused if its key is taken, and else it is put at the end of the journal. -/
theorem attempt_eq (r : Registry α) (c : Entry α) :
    r.attempt c = if r.journal.any c.clashes then r else ⟨r.journal ++ [c]⟩ := by
  rw [attempt, register, isSome_lookup_eq_any]
  cases r.journal.any c.clashes <;> rfl

/-- Of the calls whose keys are free, the first one of each key is kept. -/
theorem journal_attemptAll (calls : List (Entry α)) (r : Registry α) :
    (r.attemptAll calls).journal =
      r.journal ++ (calls.filter fun c => !r.journal.any c.clashes).eraseDupsBy Entry.clashes := by
  induction calls generalizing r with
  | nil => exact (List.append_nil _).symm
  | cons c calls ih =>
    rw [attemptAll, List.foldl_cons]
    refine (ih (r.attempt c)).trans ?_
    rw [attempt_eq]
    cases taken : r.journal.any c.clashes with
    | true => rw [if_pos rfl, List.filter_cons_of_neg (by simp [taken])]
    | false =>
      rw [if_neg nofun, List.filter_cons_of_pos (by simp [taken]), List.eraseDupsBy_cons,
        List.filter_filter, List.append_assoc, List.singleton_append]
      congr 4
      funext d
      rw [List.any_append, List.any_cons, List.any_nil, Bool.or_false]
      cases r.journal.any d.clashes <;> cases d.clashes c <;> rfl

/-- From the start on, a registry is the list of the first calls. -/
theorem journal_attemptAll_nil (calls : List (Entry α)) :
    (attemptAll {} calls).journal = calls.eraseDupsBy Entry.clashes := by
  have free : calls.filter (fun c => !([] : List (Entry α)).any c.clashes) = calls :=
    List.filter_eq_self.mpr fun _ _ => rfl
  exact (journal_attemptAll calls {}).trans (congrArg (List.eraseDupsBy Entry.clashes) free)

theorem lookup_attempt (r : Registry α) (c : Entry α) (kind : DeclKind) (key : String) :
    (r.attempt c).lookup kind key =
      (r.lookup kind key).or (if c.kind == kind && c.key == key then some c.value else none) := by
  have taken := isSome_lookup_eq_any r c
  rw [attempt_eq]
  cases hit : c.kind == kind && c.key == key with
  | false =>
    rw [if_neg Bool.false_ne_true, Option.or_none]
    split
    · rfl
    · simp only [lookup, List.find?_append, List.find?_cons, hit, List.find?_nil, Option.or_none]
  | true =>
    rw [Bool.and_eq_true, beq_iff_eq, beq_iff_eq] at hit
    obtain ⟨rfl, rfl⟩ := hit
    rw [if_pos rfl]
    split
    · next h =>
      obtain ⟨a, ha⟩ := Option.isSome_iff_exists.mp (taken.trans h)
      rw [ha, Option.some_or]
    · simp [lookup, List.find?_append]

/-- What is found under a key is what the first call for it gave. -/
theorem lookup_attemptAll (calls : List (Entry α)) (r : Registry α) (kind : DeclKind)
    (key : String) : (r.attemptAll calls).lookup kind key =
      (r.lookup kind key).or
        ((calls.find? fun c => c.kind == kind && c.key == key).map (·.value)) := by
  induction calls generalizing r with
  | nil => exact Option.or_none.symm
  | cons c calls ih =>
    rw [attemptAll, List.foldl_cons]
    refine (ih (r.attempt c)).trans ?_
    rw [lookup_attempt, Option.or_assoc, List.find?_cons]
    cases c.kind == kind && c.key == key <;> rfl

theorem restrict_attempt (r : Registry α) (c : Entry α) (kind : DeclKind) :
    (r.attempt c).restrict kind =
      if c.kind == kind then (r.restrict kind).attempt c else r.restrict kind := by
  rw [attempt_eq]
  by_cases hk : c.kind = kind
  · subst hk
    have taken : (r.restrict c.kind).journal.any c.clashes = r.journal.any c.clashes := by
      rw [restrict, List.any_filter]
      congr 1
      funext d
      rw [Entry.clashes, ← Bool.and_assoc, Bool.and_self]
    rw [if_pos (beq_self_eq_true c.kind), attempt_eq, taken]
    cases r.journal.any c.clashes with
    | true => rfl
    | false => simp [restrict]
  · have other : (c.kind == kind) = false := beq_false_of_ne hk
    simp only [other, Bool.false_eq_true, if_false]
    cases r.journal.any c.clashes with
    | true => rfl
    | false => simp [restrict, other]

/-- To restrict a registry and to call it are independent. -/
theorem restrict_attemptAll (calls : List (Entry α)) (r : Registry α) (kind : DeclKind) :
    (r.attemptAll calls).restrict kind =
      (r.restrict kind).attemptAll (calls.filter (·.kind == kind)) := by
  induction calls generalizing r with
  | nil => rfl
  | cons c calls ih =>
    rw [attemptAll, List.foldl_cons]
    refine (ih (r.attempt c)).trans ?_
    rw [restrict_attempt, List.filter_cons]
    cases c.kind == kind <;> rfl

/-- What the calls say about the registry that they leave. -/
structure Records (calls : List (Entry α)) (r : Registry α) : Prop where
  /-- A call fails exactly if an earlier one was for its key. -/
  register_eq_error : ∀ kind key a e, r.register kind key a = .error e ↔
    e = .duplicate kind key ∧ ∃ c ∈ calls, c.kind = kind ∧ c.key = key
  /-- A call that fails leaves the registry as it is. -/
  attempt_eq_self : ∀ c, (∃ e, r.register c.kind c.key c.value = .error e) → r.attempt c = r
  /-- The first call for a key counts. -/
  lookup : ∀ kind key, r.lookup kind key =
    (calls.find? fun c => c.kind == kind && c.key == key).map (·.value)
  /-- A table lists the first calls for its keys in their order. -/
  all : ∀ kind, r.all kind =
    ((calls.filter (·.kind == kind)).eraseDupsBy Entry.clashes).map (·.value)
  /-- What is found of a kind is what the calls for this kind alone would leave. -/
  lookup_apart : ∀ kind key,
    r.lookup kind key = (attemptAll {} (calls.filter (·.kind == kind))).lookup kind key
  all_apart : ∀ kind, r.all kind = (attemptAll {} (calls.filter (·.kind == kind))).all kind

theorem lookup_restrict (r : Registry α) (kind : DeclKind) (key : String) :
    (r.restrict kind).lookup kind key = r.lookup kind key := by
  rw [Registry.lookup, Registry.lookup, restrict, List.find?_filter]
  congr 2
  funext d
  cases d.kind == kind <;> simp [beq_eq_decide]

theorem all_restrict (r : Registry α) (kind : DeclKind) :
    (r.restrict kind).all kind = r.all kind := by
  rw [all, all, restrict, List.filter_filter]
  simp only [Bool.and_self]

theorem records_attemptAll (calls : List (Entry α)) : Records calls (attemptAll {} calls) := by
  have found (kind : DeclKind) (key : String) : (attemptAll {} calls).lookup kind key =
      (calls.find? fun c => c.kind == kind && c.key == key).map (·.value) :=
    lookup_attemptAll calls {} kind key
  have apart (kind : DeclKind) : (attemptAll {} calls).restrict kind =
      attemptAll {} (calls.filter (·.kind == kind)) := restrict_attemptAll calls {} kind
  constructor
  · intro kind key a e
    rw [register_eq_error_iff, found, Option.isSome_map, List.isSome_find?, List.any_eq_true]
    simp only [Bool.and_eq_true, beq_iff_eq]
    exact and_comm
  · rintro c ⟨e, he⟩
    rw [attempt, he]
  · exact found
  · intro kind
    rw [all, ← journal_attemptAll_nil, ← apart]
    rfl
  · intro kind key
    rw [← apart, lookup_restrict]
  · intro kind
    rw [← apart, all_restrict]

end Registry

/-! ## Sessions -/

namespace Registry

theorem exists_entry_of_lookup {α : Type} {r : Registry α} {kind : DeclKind} {key : String} {a : α}
    (h : r.lookup kind key = some a) : ∃ e ∈ r.journal, e.kind = kind ∧ e.value = a := by
  obtain ⟨e, he, rfl⟩ := Option.map_eq_some_iff.mp h
  have hit := List.find?_some he
  simp only [Bool.and_eq_true, beq_iff_eq] at hit
  exact ⟨e, List.mem_of_find?_eq_some he, hit.1, rfl⟩

theorem mem_all_iff {α : Type} {r : Registry α} {kind : DeclKind} {a : α} :
    a ∈ r.all kind ↔ ∃ e ∈ r.journal, e.kind = kind ∧ e.value = a := by
  simp only [all, List.mem_map, List.mem_filter, beq_iff_eq, and_assoc]

/-- A further key for what is found adds nothing to the tables. -/
theorem mem_all_alias {α : Type} {r : Registry α} {kind kind' : DeclKind} {name key : String}
    {a b : α} (h : r.lookup kind name = some b) :
    a ∈ (⟨r.journal ++ [⟨kind, key, b⟩]⟩ : Registry α).all kind' ↔ a ∈ r.all kind' := by
  rw [mem_all_iff, mem_all_iff]
  constructor
  · rintro ⟨e, he, rfl, rfl⟩
    rcases List.mem_append.mp he with he | he
    · exact ⟨e, he, rfl, rfl⟩
    · obtain rfl := List.mem_singleton.mp he
      exact exists_entry_of_lookup h
  · rintro ⟨e, he, hkind, hvalue⟩
    exact ⟨e, List.mem_append_left _ he, hkind, hvalue⟩

/-- What is found stays found when the journal gets longer. -/
theorem isSome_lookup_append {α : Type} {r : Registry α} (es : List (Entry α)) {kind : DeclKind}
    {key : String} (h : (r.lookup kind key).isSome = true) :
    ((⟨r.journal ++ es⟩ : Registry α).lookup kind key).isSome = true := by
  rw [lookup, Option.isSome_map] at h ⊢
  rw [List.find?_append, Option.isSome_or, h, Bool.true_or]

/-- Every declaration in the registry is of the kind of its table, where it is registered under its
own name, too. -/
def OwnNames (r : Registry Symbol) : Prop :=
  ∀ e ∈ r.journal, e.value.kind = e.kind ∧ (r.lookup e.kind e.value.fullName).isSome = true

theorem OwnNames.extend {r : Registry Symbol} (h : r.OwnNames) (news : List Symbol) :
    (r.extend news).OwnNames := by
  intro e he
  rcases List.mem_append.mp he with he | he
  · exact ⟨(h e he).1, isSome_lookup_append _ (h e he).2⟩
  · obtain ⟨t, ht, rfl⟩ := List.mem_map.mp he
    refine ⟨rfl, Option.ne_none_iff_isSome.mp fun hnone => ?_⟩
    exact (lookup_extend_eq_none_iff.mp hnone).2 (List.mem_map_of_mem ht)

/-- A further key for a declaration that is found. -/
theorem OwnNames.alias {r : Registry Symbol} (h : r.OwnNames) {kind : DeclKind} {name key : String}
    {t : Symbol} (ht : r.lookup kind name = some t) :
    (⟨r.journal ++ [⟨kind, key, t⟩]⟩ : Registry Symbol).OwnNames := by
  intro e he
  rcases List.mem_append.mp he with he | he
  · exact ⟨(h e he).1, isSome_lookup_append _ (h e he).2⟩
  · obtain rfl := List.mem_singleton.mp he
    obtain ⟨d, hd, rfl, rfl⟩ := exists_entry_of_lookup ht
    exact ⟨(h d hd).1, isSome_lookup_append _ (h d hd).2⟩

end Registry

namespace Schema

variable (scheme : ImportScheme)

/-- What a step makes of the registry, whether it fails or not: declarations are appended under
their own names, or one that is found is appended under another key. -/
theorem registry_after (s : Schema) (step : Step) :
    (∃ news, (after scheme s step).registry = s.registry.extend news) ∨
    ∃ kind name key t, s.registry.lookup kind name = some t ∧
      (after scheme s step).registry = ⟨s.registry.journal ++ [⟨kind, key, t⟩]⟩ := by
  rw [after_eq_leaves]
  cases step with
  | declare generate d => exact .inl (declare_grows scheme generate d s).1.registry
  | link name =>
    refine .inl ⟨[], (linkFile_becomes name s).registry.trans ?_⟩
    exact (Registry.extend_nil _).symm
  | registerAs kind name key =>
    rcases leaves_registerAs kind name key s with h | ⟨t, ht, h⟩
    · exact .inl ⟨[], (congrArg registry h).trans (Registry.extend_nil _).symm⟩
    · exact .inr ⟨kind, name, key, t, ht, congrArg registry h⟩
  | reregister kind name =>
    rcases leaves_reregister kind name s with h | ⟨t, h⟩
    · exact .inl ⟨[], (congrArg registry h).trans (Registry.extend_nil _).symm⟩
    · exact .inl ⟨[t], congrArg registry h⟩

/-- No step of a session takes anything out of a table, whether it fails or not. -/
theorem table_isPrefix_after (s : Schema) (step : Step) (kind : DeclKind) :
    s.registry.table kind <+: (after scheme s step).registry.table kind := by
  have journal : s.registry.journal <+: (after scheme s step).registry.journal := by
    rcases registry_after scheme s step with ⟨news, h⟩ | ⟨_, _, _, _, -, h⟩ <;> rw [h]
    · exact List.prefix_append _ _
    · exact List.prefix_append _ _
  exact (journal.filter _).map _

theorem ownNames_after {s : Schema} (h : s.registry.OwnNames) (step : Step) :
    (after scheme s step).registry.OwnNames := by
  rcases registry_after scheme s step with ⟨news, hr⟩ | ⟨kind, name, key, t, ht, hr⟩
  · rw [hr]
    exact h.extend news
  · rw [hr]
    exact h.alias ht

theorem ownNames_afterAll {s : Schema} (h : s.registry.OwnNames) (steps : List Step) :
    (afterAll scheme s steps).registry.OwnNames := by
  induction steps generalizing s with
  | nil => exact h
  | cons step steps ih =>
    rw [afterAll, List.foldl_cons]
    exact ih (ownNames_after scheme h step)

/-- A declaration that is found cannot be registered under its own name again. -/
theorem perform_reregister {s : Schema} (h : s.registry.OwnNames) {kind : DeclKind} {name : String}
    {t : Symbol} (ht : s.registry.lookup kind name = some t) :
    perform scheme (.reregister kind name) s = .error (.duplicate t.kind t.fullName) s := by
  obtain ⟨e, he, rfl, rfl⟩ := Registry.exists_entry_of_lookup ht
  have taken := (h e he).2
  rw [← (h e he).1] at taken
  have refused : s.registry.declare e.value = .error (.duplicate e.value.kind e.value.fullName) :=
    Registry.register_eq_error_iff.mpr ⟨taken, rfl⟩
  simp only [perform, reregister, ht, refused]

/-- What a registry holds is told by its calls: a call fails exactly if its key was called before,
the first call for a key counts, and the tables of different kinds know nothing of each other.  In a
session every step leaves each table as a prefix of what it becomes, and a declaration that is found
under any key is refused under its own name, with no effect. -/
theorem registry_append_only :
    (∀ (α : Type) (calls : List (Registry.Entry α)),
      Registry.Records calls (Registry.attemptAll {} calls)) ∧
    (∀ (s : Schema) (step : Step) (kind : DeclKind),
      s.registry.table kind <+: (after scheme s step).registry.table kind) ∧
    ∀ (steps : List Step) (kind : DeclKind) (name : String) (t : Symbol),
      (afterAll scheme {} steps).registry.lookup kind name = some t →
        perform scheme (.reregister kind name) (afterAll scheme {} steps) =
          .error (.duplicate t.kind t.fullName) (afterAll scheme {} steps) := by
  refine ⟨fun _ => Registry.records_attemptAll, table_isPrefix_after scheme, ?_⟩
  intro steps kind name t ht
  have start : ({} : Schema).registry.OwnNames := nofun
  exact perform_reregister scheme (ownNames_afterAll scheme start steps) ht

/-- A message gets a second key, and a file is declared for the second time after that. -/
def aliasSteps : List Step :=
  let d : FileDescriptor := { name := "a.proto", package := "a", messages := [{ name := "T" }] }
  [.declare false d, .registerAs .message "a.T" "b.T", .declare true d]

/-- What is found under the second key is refused under the first one. -/
theorem registry_append_only_aliasSteps :
    ((afterAll .standard {} aliasSteps).registry.lookup .message "b.T").isSome = true ∧
    perform .standard (.reregister .message "b.T") (afterAll .standard {} aliasSteps) =
      .error (.duplicate .message "a.T") (afterAll .standard {} aliasSteps) := by
  have found : ((afterAll .standard {} aliasSteps).registry.lookup .message "b.T").map Symbol.key =
      some (.message, "a.T") := by decide +kernel
  obtain ⟨t, ht, hkey⟩ := Option.map_eq_some_iff.mp found
  obtain ⟨hkind, hname⟩ := Prod.mk.inj hkey
  have refused := (registry_append_only .standard).2.2 aliasSteps .message "b.T" t ht
  rw [hkind, hname] at refused
  exact ⟨by rw [ht, Option.isSome_some], refused⟩

end Schema

end Protolink
