import Mathlib.Data.List.Induction
import Mathlib.Data.List.TakeWhile
import Protolink.Proofs.Registry

/-!
# What a search probes

The meaning of a type name is searched under one key after the other.  Which keys these are can be
said in two ways: by going from a scope to the one around it until none is left, and by naming the
prefixes of the scope that end before a dot.  `Name.Climbs` is the first way, and
`Name.climbs_scopes` says that it ends for every scope, also for those with dots at odd places.

A search answers with its first hit, `Registry.Finds`.  A registry that grows keeps what it has, so
the search stops at the probe where it stopped before or, when a new entry stands in the way, at an
earlier one.
-/

namespace Protolink

/-! ## Cutting at the last separator -/

namespace Text

variable {sep : Char} {cs before after : List Char}

theorem forall_mem_reverse_ne (h : sep ∉ cs) : ∀ c ∈ cs.reverse, (c != sep) = true := by
  intro c hc
  rw [bne_iff_ne]
  rintro rfl
  exact h (List.mem_reverse.mp hc)

theorem cutLast?_of_notMem (h : sep ∉ cs) : cutLast? sep cs = none := by
  rw [cutLast?, List.dropWhile_eq_nil_iff.mpr (forall_mem_reverse_ne h)]

theorem cutLast?_append_cons (h : sep ∉ after) :
    cutLast? sep (before ++ sep :: after) = some (before, after) := by
  have ends := forall_mem_reverse_ne h
  rw [cutLast?, List.reverse_append, List.reverse_cons, List.append_assoc, List.singleton_append,
    List.dropWhile_append_of_pos ends, List.takeWhile_append_of_pos ends]
  simp

theorem exists_last (h : sep ∈ cs) : ∃ before after, cs = before ++ sep :: after ∧ sep ∉ after := by
  obtain ⟨after, before, hcs, hafter⟩ := List.eq_append_cons_of_mem (List.mem_reverse.mpr h)
  refine ⟨before.reverse, after.reverse, ?_, fun h => hafter (List.mem_reverse.mp h)⟩
  rw [← List.reverse_reverse cs, hcs]
  simp

/-- A prefix that ends with a separator ends before what holds no separator. -/
theorem concat_isPrefix_append_iff {xs : List Char} (h : sep ∉ after) :
    xs ++ [sep] <+: before ++ after ↔ xs ++ [sep] <+: before := by
  induction after using List.reverseRecOn with
  | nil => rw [List.append_nil]
  | append_singleton after c ih =>
    rw [List.mem_append, List.mem_singleton, not_or] at h
    rw [← List.append_assoc, List.prefix_concat_iff, ih h.1]
    refine or_iff_right fun heq => h.2 ?_
    exact List.singleton_inj.mp (List.append_inj_right' heq rfl)

/-- No separator stands behind the last one. -/
theorem isPrefix_of_last {front back : List Char} (h : sep ∉ after)
    (heq : before ++ sep :: after = front ++ sep :: back) : front <+: before := by
  have within : front ++ [sep] <+: (before ++ [sep]) ++ after := ⟨back, by simpa using heq.symm⟩
  rcases List.prefix_concat_iff.mp ((concat_isPrefix_append_iff h).mp within) with hlast | hbefore
  · exact (List.append_inj' hlast rfl).1 ▸ List.prefix_rfl
  · exact (List.prefix_append front [sep]).trans hbefore

end Text

/-! ## From a scope outwards -/

namespace Name

/-- The scope around a scope: what stands before its last dot, or nothing. -/
def enclosing (scope : String) : String :=
  match Text.cutLast? '.' scope.toList with
  | some (before, _) => String.ofList before
  | none => ""

/-- From a scope to the scope around it, and on until none is left. -/
inductive Climbs : String → List String → Prop
  | done : Climbs "" []
  | step {scope : String} {outer : List String} :
      scope ≠ "" → Climbs (enclosing scope) outer → Climbs scope (scope :: outer)

variable {scope c : String} {outwards : List String}

/-- A scope without a dot has none around it; any other one is around what its last dot is
before. -/
theorem enclosing_cases (scope : String) : '.' ∉ scope.toList ∧ enclosing scope = "" ∨
    ∃ last, scope = enclosing scope ++ "." ++ last ∧ '.' ∉ last.toList := by
  by_cases dot : '.' ∈ scope.toList
  · obtain ⟨before, after, hscope, hafter⟩ := Text.exists_last dot
    refine .inr ⟨String.ofList after, ?_, by rwa [String.toList_ofList]⟩
    rw [← String.toList_inj, enclosing, hscope, Text.cutLast?_append_cons hafter]
    simp
  · exact .inl ⟨dot, by rw [enclosing, Text.cutLast?_of_notMem dot]⟩

theorem length_enclosing_lt (h : scope ≠ "") : (enclosing scope).length < scope.length := by
  rcases enclosing_cases scope with ⟨-, none⟩ | ⟨last, hlast, -⟩
  · rw [none, String.length_empty]
    exact Nat.pos_of_ne_zero fun h0 => h (String.length_eq_zero_iff.mp h0)
  · conv_rhs => rw [hlast]
    simp only [String.length_append]
    have dot : ".".length = 1 := rfl
    omega

/-- A prefix that ends before a dot ends before the last one, or it is such a prefix of the scope
around. -/
theorem isPrefix_iff_enclosing (h : c ≠ "") : c.toList ++ ['.'] <+: scope.toList ↔
    c = enclosing scope ∨ c.toList ++ ['.'] <+: (enclosing scope).toList := by
  rcases enclosing_cases scope with ⟨dot, none⟩ | ⟨last, hlast, hdot⟩
  · rw [none]
    refine iff_of_false (fun within => dot (within.subset ?_)) ?_
    · exact List.mem_append_right _ (List.mem_singleton_self _)
    · rintro (rfl | within)
      · exact h rfl
      · simp at within
  · generalize enclosing scope = outer at hlast ⊢
    rw [hlast, String.toList_append, String.toList_append, Text.concat_isPrefix_append_iff hdot]
    rw [show ".".toList = ['.'] from rfl, List.prefix_concat_iff, List.append_left_inj,
      String.toList_inj]

theorem afterDots_of_notMem {cs : List Char} (h : '.' ∉ cs) : afterDots cs = [] := by
  induction cs with
  | nil => rfl
  | cons c cs ih =>
    rw [List.mem_cons, not_or] at h
    rw [afterDots, if_neg (Ne.symm h.1), ih h.2]

theorem afterDots_append_cons {xs ys : List Char} (h : '.' ∉ xs) :
    afterDots (xs ++ '.' :: ys) = ys :: afterDots ys := by
  induction xs with
  | nil => rfl
  | cons x xs ih =>
    rw [List.mem_cons, not_or] at h
    rw [List.cons_append, afterDots, if_neg (Ne.symm h.1), ih h.2]

theorem scopes_eq (h : scope ≠ "") : scopes scope = scope :: scopes (enclosing scope) := by
  rw [scopes, List.filter_cons_of_pos (by simpa using h), List.map_cons, List.reverse_reverse,
    String.ofList_toList, List.cons_inj_right]
  rcases enclosing_cases scope with ⟨dot, none⟩ | ⟨last, hlast, hdot⟩
  · rw [none, afterDots_of_notMem fun hdot => dot (List.mem_reverse.mp hdot)]
    rfl
  · generalize enclosing scope = outer at hlast ⊢
    have reversed : scope.toList.reverse = last.toList.reverse ++ '.' :: outer.toList.reverse := by
      rw [hlast]
      simp
    rw [reversed, afterDots_append_cons fun h => hdot (List.mem_reverse.mp h)]
    rfl

theorem climbs_scopes (scope : String) : Climbs scope (scopes scope) := by
  induction n : scope.length using Nat.strong_induction_on generalizing scope with
  | _ n ih =>
    subst n
    by_cases h : scope = ""
    · rw [h]
      exact .done
    · rw [scopes_eq h]
      exact .step h (ih _ (length_enclosing_lt h) _ rfl)

theorem Climbs.length_le (h : Climbs scope outwards) : ∀ c ∈ outwards, c.length ≤ scope.length := by
  induction h with
  | done => nofun
  | step h _ ih =>
    have shorter := length_enclosing_lt h
    rw [List.forall_mem_cons]
    exact ⟨Nat.le_refl _, fun c hc => (ih c hc).trans shorter.le⟩

theorem Climbs.pairwise (h : Climbs scope outwards) :
    outwards.Pairwise fun a b => b.length < a.length := by
  induction h with
  | done => exact .nil
  | step h climbs ih =>
    exact .cons (fun c hc => (climbs.length_le c hc).trans_lt (length_enclosing_lt h)) ih

theorem Climbs.mem_iff (h : Climbs scope outwards) :
    c ∈ outwards ↔ c ≠ "" ∧ (c = scope ∨ c.toList ++ ['.'] <+: scope.toList) := by
  induction h with
  | done => simp
  | @step scope outer hscope _ ih =>
    rw [List.mem_cons, ih]
    constructor
    · rintro (rfl | ⟨hc, hrest⟩)
      · exact ⟨hscope, .inl rfl⟩
      · exact ⟨hc, .inr ((isPrefix_iff_enclosing hc).mpr hrest)⟩
    · rintro ⟨hc, rfl | hrest⟩
      · exact .inl rfl
      · exact .inr ⟨hc, (isPrefix_iff_enclosing hc).mp hrest⟩

example : scopes "a..b" = ["a..b", "a.", "a"] ∧ scopes ".." = ["..", "."] := by decide +kernel

/-! ## Candidates -/

theorem candidates_qualified (scope full : String) : candidates scope ("." ++ full) = [full] := by
  have dotted : ("." ++ full).toList = '.' :: full.toList := String.toList_append
  rw [candidates, dotted]
  exact congrArg (fun s => [s]) String.ofList_toList

theorem candidates_relative (scope : String) {typeName : String}
    (h : ∀ full, typeName ≠ "." ++ full) : candidates scope typeName =
      (scopes scope).map (· ++ "." ++ typeName) ++ [typeName] := by
  unfold candidates
  split
  · next full hfull =>
    refine absurd ?_ (h (String.ofList full))
    rw [← String.toList_inj, hfull]
    simp
  · rfl

/-- The keys that a search tries, each with the table that it is looked up in: one candidate after
the other, and each of them in all tables. -/
def probes (kinds : List DeclKind) (candidates : List String) : List (DeclKind × String) :=
  candidates.flatMap fun c => kinds.map (·, c)

end Name

/-! ## The first hit -/

namespace Registry

variable {α : Type} {r r' : Registry α} {entries : List (Entry α)} {kind : DeclKind} {key : String}

/-- An entry is found at a probe, and nothing is found at the probes before it. -/
structure Finds (r : Registry α) (before : List (DeclKind × String)) (probe : DeclKind × String)
    (a : α) : Prop where
  free : ∀ p ∈ before, r.lookup p.1 p.2 = none
  found : r.lookup probe.1 probe.2 = some a

/-- What the first of several probes finds that finds anything. -/
def search (r : Registry α) (probes : List (DeclKind × String)) : Option α :=
  probes.findSome? fun p => r.lookup p.1 p.2

/-- A search finds something exactly if one of its probes does, and then at the first of these. -/
structure Answers (r : Registry α) (probes : List (DeclKind × String)) (answer : Option α) :
    Prop where
  found : ∀ a, answer = some a ↔
    ∃ before probe after, probes = before ++ probe :: after ∧ r.Finds before probe a
  missing : answer = none ↔ ∀ p ∈ probes, r.lookup p.1 p.2 = none

theorem answers_search (r : Registry α) (probes : List (DeclKind × String)) :
    r.Answers probes (r.search probes) := by
  constructor
  · intro a
    rw [search, List.findSome?_eq_some_iff]
    constructor
    · rintro ⟨before, probe, after, rfl, found, free⟩
      exact ⟨before, probe, after, rfl, free, found⟩
    · rintro ⟨before, probe, after, rfl, free, found⟩
      exact ⟨before, probe, after, rfl, found, free⟩
  · exact List.findSome?_eq_none_iff

/-- The two loops of a search, over candidates and over kinds, are one over probes. -/
theorem resolve_eq_search (r : Registry α) (kinds : List DeclKind) (scope typeName : String) :
    r.resolve kinds scope typeName =
      r.search (Name.probes kinds (Name.candidates scope typeName)) := by
  unfold resolve search Name.probes
  induction Name.candidates scope typeName with
  | nil => rfl
  | cons c cs ih =>
    have any : r.lookupAny kinds c = (kinds.map (·, c)).findSome? fun p => r.lookup p.1 p.2 := by
      rw [List.findSome?_map]
      rfl
    rw [List.flatMap_cons, List.findSome?_append, ← ih, ← any, List.findSome?_cons]
    cases r.lookupAny kinds c <;> rfl

theorem resolve_answers (r : Registry α) (kinds : List DeclKind) (scope typeName : String) :
    r.Answers (Name.probes kinds (Name.candidates scope typeName))
      (r.resolve kinds scope typeName) := by
  rw [resolve_eq_search]
  exact r.answers_search _

/-- A type name means what is found first.  With a leading dot, the rest of the name is looked up in
every table and nothing else is.  Without one, a key is tried in each scope from the inside out, and
last the name alone; the scopes are the non-empty prefixes of the scope that end before a dot, and
the scope itself, the longest first, and they are reached by going from each scope to the one around
it until none is left. -/
theorem resolve_first_hit (r : Registry α) (kinds : List DeclKind) (scope typeName : String) :
    (∀ full, typeName = "." ++ full →
      r.Answers (Name.probes kinds [full]) (r.resolve kinds scope typeName)) ∧
    ((∀ full, typeName ≠ "." ++ full) → ∃ outwards, Name.Climbs scope outwards ∧
      outwards.Pairwise (fun a b => b.length < a.length) ∧
      (∀ c, c ∈ outwards ↔ c ≠ "" ∧ (c = scope ∨ c.toList ++ ['.'] <+: scope.toList)) ∧
      r.Answers (Name.probes kinds (outwards.map (· ++ "." ++ typeName) ++ [typeName]))
        (r.resolve kinds scope typeName)) := by
  have answers := r.resolve_answers kinds scope typeName
  constructor
  · rintro full rfl
    rwa [Name.candidates_qualified] at answers
  · intro relative
    rw [Name.candidates_relative scope relative] at answers
    have climbs := Name.climbs_scopes scope
    exact ⟨_, climbs, climbs.pairwise, fun c => climbs.mem_iff, answers⟩

/-- Two declarations whose keys differ in a dot. -/
def dotted : Registry Nat := ⟨[⟨.message, "a.T", 1⟩, ⟨.enum, "a..T", 2⟩]⟩

/-- In the scope `a..b`, the name `T` is found in the scope `a.` before it is found in `a`, although
the kind of the first is asked for last. -/
theorem resolve_first_hit_dotted :
    ".a.T" = "." ++ "a.T" ∧
    dotted.Answers (Name.probes [.message, .enum] ["a.T"]) (some 1) ∧
    (∀ full, "T" ≠ "." ++ full) ∧ ∃ outwards, Name.Climbs "a..b" outwards ∧
      outwards.Pairwise (fun a b => b.length < a.length) ∧
      (∀ c, c ∈ outwards ↔ c ≠ "" ∧ (c = "a..b" ∨ c.toList ++ ['.'] <+: "a..b".toList)) ∧
      dotted.Answers (Name.probes [.message, .enum] (outwards.map (· ++ "." ++ "T") ++ ["T"]))
        (some 2) := by
  have full : dotted.resolve [.message, .enum] "a..b" ".a.T" = some 1 := by decide +kernel
  have relative : dotted.resolve [.message, .enum] "a..b" "T" = some 2 := by decide +kernel
  have bare : ∀ full, "T" ≠ "." ++ full := by
    intro full h
    have heads := congrArg (·.toList.head?) h
    simp at heads
  refine ⟨rfl, ?_, bare, ?_⟩
  · rw [← full]
    exact (resolve_first_hit dotted [.message, .enum] "a..b" ".a.T").1 "a.T" rfl
  · rw [← relative]
    exact (resolve_first_hit dotted [.message, .enum] "a..b" "T").2 bare

/-! ## Searching in a registry that grows -/

/-- A registry becomes another one by registrations, each of which succeeds. -/
inductive GrowsBy : Registry α → List (Entry α) → Registry α → Prop
  | refl (r : Registry α) : GrowsBy r [] r
  | register {r r' r'' : Registry α} {e : Entry α} {entries : List (Entry α)} :
      r.register e.kind e.key e.value = .ok r' → GrowsBy r' entries r'' →
        GrowsBy r (e :: entries) r''

theorem GrowsBy.journal_eq (h : GrowsBy r entries r') : r'.journal = r.journal ++ entries := by
  induction h with
  | refl r => exact (List.append_nil _).symm
  | register registered _ ih =>
    rw [ih, eq_of_register registered, List.append_assoc, List.singleton_append]

/-- What is found in a registry is found when it has grown. -/
theorem GrowsBy.lookup_kept (h : GrowsBy r entries r') {a : α} (ha : r.lookup kind key = some a) :
    r'.lookup kind key = some a := by
  rw [lookup] at ha ⊢
  rw [h.journal_eq, List.find?_append, Option.map_or, ha, Option.some_or]

/-- What is found in a registry only when it has grown is one of the new entries. -/
theorem GrowsBy.exists_entry (h : GrowsBy r entries r') {a : α} (hr : r.lookup kind key = none)
    (ha : r'.lookup kind key = some a) :
    ∃ e ∈ entries, e.kind = kind ∧ e.key = key ∧ e.value = a := by
  rw [lookup] at hr ha
  rw [h.journal_eq, List.find?_append, Option.map_or, hr, Option.none_or] at ha
  obtain ⟨e, he, rfl⟩ := Option.map_eq_some_iff.mp ha
  have hit := List.find?_some he
  simp only [Bool.and_eq_true, beq_iff_eq] at hit
  exact ⟨e, List.mem_of_find?_eq_some he, hit.1, hit.2, rfl⟩

/-- A search that did not stop before a probe now stops there, at a new entry. -/
structure Shadowed (r' : Registry α) (entries : List (Entry α))
    (before : List (DeclKind × String)) (a : α) : Prop where
  stops : ∃ before' e after', before = before' ++ (e.kind, e.key) :: after' ∧ e ∈ entries ∧
    e.value = a ∧ r'.Finds before' (e.kind, e.key) a

/-- When the registry has grown, a search stops at the probe where it stopped before, or at a new
entry that shadows what it found there. -/
theorem GrowsBy.search (h : GrowsBy r entries r') {before : List (DeclKind × String)}
    {probe : DeclKind × String} {a : α} (ha : r.Finds before probe a)
    (after : List (DeclKind × String)) :
    ∃ a', r'.search (before ++ probe :: after) = some a' ∧
      (a' = a ∧ r'.Finds before probe a ∨ r'.Shadowed entries before a') := by
  have kept := h.lookup_kept ha.found
  rw [Registry.search, List.findSome?_append, List.findSome?_cons, kept]
  cases new : before.findSome? fun p => r'.lookup p.1 p.2 with
  | none => exact ⟨a, rfl, .inl ⟨rfl, List.findSome?_eq_none_iff.mp new, kept⟩⟩
  | some a' =>
    obtain ⟨before', ⟨kind, key⟩, after', rfl, found, free⟩ := List.findSome?_eq_some_iff.mp new
    have unknown : r.lookup kind key = none := ha.free (kind, key) (by simp)
    obtain ⟨e, he, rfl, rfl, rfl⟩ := h.exists_entry unknown found
    exact ⟨e.value, rfl, .inr ⟨before', e, after', rfl, he, rfl, free, found⟩⟩

/-- Registering more does not make a type name meaningless.  A name that had a meaning has one, and
if this is not the one that it had then it is a new entry at an earlier probe; a full name that is
looked up in one table means what it meant. -/
theorem resolve_only_shadowed (h : GrowsBy r entries r') (kinds : List DeclKind)
    (scope typeName : String) :
    (∀ a, r.resolve kinds scope typeName = some a → ∃ before probe after,
      Name.probes kinds (Name.candidates scope typeName) = before ++ probe :: after ∧
      r.Finds before probe a ∧ ∃ a', r'.resolve kinds scope typeName = some a' ∧
        (a' = a ∧ r'.Finds before probe a ∨ r'.Shadowed entries before a')) ∧
    (∀ full kind a, typeName = "." ++ full → kinds = [kind] →
      r.resolve kinds scope typeName = some a → r'.resolve kinds scope typeName = some a) ∧
    (r'.resolve kinds scope typeName = none → r.resolve kinds scope typeName = none) := by
  have grown : ∀ a, r.resolve kinds scope typeName = some a → ∃ before probe after,
      Name.probes kinds (Name.candidates scope typeName) = before ++ probe :: after ∧
      r.Finds before probe a ∧ ∃ a', r'.resolve kinds scope typeName = some a' ∧
        (a' = a ∧ r'.Finds before probe a ∨ r'.Shadowed entries before a') := by
    intro a ha
    obtain ⟨before, probe, after, hprobes, finds⟩ :=
      ((r.resolve_answers kinds scope typeName).found a).mp ha
    rw [r'.resolve_eq_search, hprobes]
    exact ⟨before, probe, after, rfl, finds, h.search finds after⟩
  refine ⟨grown, ?_, ?_⟩
  · rintro full kind a rfl rfl ha
    obtain ⟨before, probe, after, hprobes, -, a', ha', rest⟩ := grown a ha
    -- There is one probe, so nothing can come before it.
    have single : [(kind, full)] = before ++ probe :: after := by
      rw [← hprobes, Name.candidates_qualified]
      rfl
    have first : before = [] := by
      cases before with
      | nil => rfl
      | cons p ps => simp at single
    rcases rest with ⟨rfl, -⟩ | ⟨before', e, after', hbefore, -⟩
    · exact ha'
    · simp [first] at hbefore
  · intro none
    rw [Option.eq_none_iff_forall_ne_some]
    intro a ha
    obtain ⟨-, -, -, -, -, a', ha', -⟩ := grown a ha
    rw [none] at ha'
    cases ha'

/-- A message that is registered in the scope of a name shadows one outside of it, but not for those
who name the other one in full. -/
theorem resolve_only_shadowed_inner :
    GrowsBy dotted [⟨.message, "a.b.T", 3⟩] ⟨dotted.journal ++ [⟨.message, "a.b.T", 3⟩]⟩ ∧
    dotted.resolve [.message] "a.b" "T" = some 1 ∧ ∃ before probe after,
      Name.probes [.message] (Name.candidates "a.b" "T") = before ++ probe :: after ∧
      dotted.Finds before probe 1 ∧
      Shadowed ⟨dotted.journal ++ [⟨.message, "a.b.T", 3⟩]⟩ [⟨.message, "a.b.T", 3⟩] before 3 ∧
    (⟨dotted.journal ++ [⟨.message, "a.b.T", 3⟩]⟩ : Registry Nat).resolve [.message]
      "a.b" ".a.T" = some 1 := by
  have grows : GrowsBy dotted [⟨.message, "a.b.T", 3⟩]
      ⟨dotted.journal ++ [⟨.message, "a.b.T", 3⟩]⟩ := .register rfl (.refl _)
  have outer : dotted.resolve [.message] "a.b" "T" = some 1 := by decide +kernel
  have inner : (⟨dotted.journal ++ [⟨.message, "a.b.T", 3⟩]⟩ : Registry Nat).resolve [.message]
      "a.b" "T" = some 3 := by decide +kernel
  obtain ⟨before, probe, after, hprobes, finds, a, ha, rest⟩ :=
    (resolve_only_shadowed grows [.message] "a.b" "T").1 1 outer
  have full := (resolve_only_shadowed grows [.message] "a.b" ".a.T").2.1 "a.T" .message 1 rfl rfl
    (by decide +kernel)
  obtain rfl : 3 = a := Option.some.inj (inner.symm.trans ha)
  rcases rest with ⟨same, -⟩ | shadowed
  · exact absurd same (by decide)
  · exact ⟨grows, outer, before, probe, after, hprobes, finds, shadowed, full⟩

end Registry

end Protolink
