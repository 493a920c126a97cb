import Mathlib.Data.List.Nodup
import Mathlib.Data.List.Perm.Basic
import Protolink.Registry.Resolve
import Protolink.Symbol

/-!
# Growing and asking a registry

A registry grows by lists of declarations: `extend` appends them, and `Admits` says that each of
their keys is free when its turn comes.  Registering a single declaration is the case of one, so
whole runs of registrations are reasoned about as one list.

Of a registry without repeated keys, look-up does not depend on the order of the journal, and
neither does the resolution of names, which asks a registry by look-up alone.
-/

namespace Protolink

/-! ## Lists whose elements have different keys -/

section Keyed

variable {α κ : Type} {key : α → κ} {k : κ} {p : α → Bool} {xs ys : List α}

/-- A search by key finds the element that has the key. -/
theorem find?_eq_some_iff_of_nodup (h : (xs.map key).Nodup) (hp : ∀ a, p a = true ↔ key a = k)
    {a : α} : xs.find? p = some a ↔ a ∈ xs ∧ key a = k := by
  constructor
  · intro ha
    exact ⟨List.mem_of_find?_eq_some ha, (hp a).mp (List.find?_some ha)⟩
  · rintro ⟨ha, hk⟩
    cases hb : xs.find? p with
    | none => exact absurd ((hp a).mpr hk) (List.find?_eq_none.mp hb a ha)
    | some b =>
      have hkb : key b = k := (hp b).mp (List.find?_some hb)
      rw [List.inj_on_of_nodup_map h (List.mem_of_find?_eq_some hb) ha (hkb.trans hk.symm)]

/-- A search by key does not depend on the order of the elements. -/
theorem find?_perm_of_nodup (h : xs.Perm ys) (hx : (xs.map key).Nodup)
    (hp : ∀ a, p a = true ↔ key a = k) : xs.find? p = ys.find? p := by
  have hy : (ys.map key).Nodup := (h.map key).nodup_iff.mp hx
  ext a
  rw [find?_eq_some_iff_of_nodup hx hp, find?_eq_some_iff_of_nodup hy hp, h.mem_iff]

end Keyed

/-- What a declaration is registered under. -/
def Symbol.key (s : Symbol) : DeclKind × String := (s.kind, s.fullName)

namespace Registry

/-! ## Growth -/

/-- A registry with further declarations, each under its own name. -/
def extend (r : Registry Symbol) (news : List Symbol) : Registry Symbol :=
  ⟨r.journal ++ news.map fun s => ⟨s.kind, s.fullName, s⟩⟩

/-- Declarations can be registered in turn: their keys are free, and no two are the same. -/
def Admits (r : Registry Symbol) (news : List Symbol) : Prop :=
  (news.map Symbol.key).Nodup ∧ ∀ s ∈ news, r.lookup s.kind s.fullName = none

variable {r r' : Registry Symbol}

@[simp] theorem extend_nil (r : Registry Symbol) : r.extend [] = r := by
  simp [extend]

theorem extend_append (r : Registry Symbol) (xs ys : List Symbol) :
    r.extend (xs ++ ys) = (r.extend xs).extend ys := by
  simp [extend]

theorem all_extend (r : Registry Symbol) (xs : List Symbol) (kind : DeclKind) :
    (r.extend xs).all kind = r.all kind ++ xs.filter (·.kind == kind) := by
  rw [all, extend, List.filter_append, List.map_append, List.filter_map, List.map_map]
  exact congrArg _ (List.map_id _)

/-- The first of the new declarations counts if a key was free. -/
theorem lookup_extend (r : Registry Symbol) (news : List Symbol) (kind : DeclKind) (key : String) :
    (r.extend news).lookup kind key =
      (r.lookup kind key).or (news.find? fun s => s.key = (kind, key)) := by
  simp only [lookup, extend, List.find?_append, List.find?_map, Option.map_or, Option.map_map]
  congr 1
  have hp : ((fun e : Entry Symbol => e.kind == kind && e.key == key) ∘
      fun s : Symbol => ⟨s.kind, s.fullName, s⟩) = fun s => decide (s.key = (kind, key)) := by
    funext s
    simp [Symbol.key, Bool.decide_and, beq_eq_decide]
  rw [hp]
  cases news.find? fun s => s.key = (kind, key) <;> rfl

theorem lookup_extend_eq_none_iff {news : List Symbol} {kind : DeclKind} {key : String} :
    (r.extend news).lookup kind key = none ↔
      r.lookup kind key = none ∧ (kind, key) ∉ news.map Symbol.key := by
  simp only [lookup_extend, Option.or_eq_none_iff, List.find?_eq_none, decide_eq_true_eq,
    List.mem_map, not_exists, not_and]

@[simp] theorem admits_nil (r : Registry Symbol) : r.Admits [] := ⟨List.nodup_nil, by simp⟩

/-- Lists are admitted one after the other. -/
theorem admits_append {xs ys : List Symbol} :
    r.Admits (xs ++ ys) ↔ r.Admits xs ∧ (r.extend xs).Admits ys := by
  simp only [Admits, lookup_extend_eq_none_iff, List.map_append, List.nodup_append',
    List.mem_append]
  constructor
  · rintro ⟨⟨hx, hy, hd⟩, hr⟩
    refine ⟨⟨hx, fun s hs => hr s (.inl hs)⟩, hy, fun s hs => ⟨hr s (.inr hs), fun hk => ?_⟩⟩
    exact hd hk (List.mem_map_of_mem hs)
  · rintro ⟨⟨hx, hrx⟩, hy, hry⟩
    refine ⟨⟨hx, hy, fun k hkx hky => ?_⟩, fun s hs => ?_⟩
    · obtain ⟨s, hs, rfl⟩ := List.mem_map.mp hky
      exact (hry s hs).2 hkx
    · rcases hs with hs | hs
      · exact hrx s hs
      · exact (hry s hs).1

/-- A declaration is registered exactly if it is admitted. -/
theorem declare_eq_ok_iff {s : Symbol} :
    r.declare s = .ok r' ↔ r.Admits [s] ∧ r' = r.extend [s] := by
  unfold declare register
  cases h : r.lookup s.kind s.fullName with
  | none => simp [Admits, extend, h, eq_comm]
  | some t => simp [Admits, h]

/-- A registration fails exactly if the key is taken. -/
theorem register_eq_error_iff {α : Type} {r : Registry α} {kind : DeclKind} {key : String} {a : α}
    {e : Error} : r.register kind key a = .error e ↔
      (r.lookup kind key).isSome = true ∧ e = .duplicate kind key := by
  unfold register
  cases r.lookup kind key <;> simp [eq_comm]

theorem eq_of_register {α : Type} {r r' : Registry α} {kind : DeclKind} {key : String} {a : α}
    (h : r.register kind key a = .ok r') : r' = ⟨r.journal ++ [⟨kind, key, a⟩]⟩ := by
  unfold register at h
  split at h
  · exact absurd h nofun
  · exact (Except.ok.inj h).symm

/-! ## A registry made of declarations

From here on the registry holds a list of declarations with different keys and nothing else. -/

section Declared

variable {xs ys : List Symbol} {kind : DeclKind} {key : String}

theorem nil_admits_iff : (⟨[]⟩ : Registry Symbol).Admits xs ↔ (xs.map Symbol.key).Nodup := by
  simp [Admits, lookup]

theorem isSome_lookup_iff :
    ((⟨[]⟩ : Registry Symbol).extend xs |>.lookup kind key).isSome ↔
      (kind, key) ∈ xs.map Symbol.key := by
  rw [← not_iff_not, Bool.not_eq_true, Option.isSome_eq_false_iff, Option.isNone_iff_eq_none,
    lookup_extend_eq_none_iff]
  simp [lookup]

/-- Look-up finds the declaration that has the key. -/
theorem lookup_eq_some_iff (h : (xs.map Symbol.key).Nodup) {s : Symbol} :
    ((⟨[]⟩ : Registry Symbol).extend xs).lookup kind key = some s ↔
      s ∈ xs ∧ s.key = (kind, key) := by
  rw [lookup_extend, show (⟨[]⟩ : Registry Symbol).lookup kind key = none from rfl,
    Option.none_or]
  exact find?_eq_some_iff_of_nodup h fun _ => decide_eq_true_iff

/-- Look-up does not depend on the order of registration. -/
theorem lookup_perm (h : xs.Perm ys) (hx : (xs.map Symbol.key).Nodup) :
    ((⟨[]⟩ : Registry Symbol).extend xs).lookup = ((⟨[]⟩ : Registry Symbol).extend ys).lookup := by
  have hy : (ys.map Symbol.key).Nodup := (h.map _).nodup_iff.mp hx
  funext kind key
  ext s
  rw [lookup_eq_some_iff hx, lookup_eq_some_iff hy, h.mem_iff]

end Declared

/-! ## Resolution -/

section Resolve

variable {kind : DeclKind} {kinds : List DeclKind} {scope typeName : String}

/-- Names are resolved by look-up alone. -/
theorem resolve_congr (h : r.lookup = r'.lookup) : r.resolve = r'.resolve := by
  unfold resolve lookupAny
  rw [h]

/-- A name has a meaning in one table if one of its candidates is registered there. -/
theorem isSome_resolve_iff :
    (r.resolve [kind] scope typeName).isSome ↔
      ∃ c ∈ Name.candidates scope typeName, (r.lookup kind c).isSome := by
  simp [resolve, lookupAny, List.findSome?_isSome_iff]

/-- A full name is looked up and nothing else, from whatever scope. -/
theorem resolve_qualified (r : Registry Symbol) (kind : DeclKind) (scope : String)
    {typeName : String} (h : typeName.toList.head? = some '.') :
    r.resolve [kind] scope typeName = r.lookup kind (String.ofList typeName.toList.tail) := by
  obtain ⟨full, hfull⟩ := List.head?_eq_some_iff.mp h
  simp [resolve, Name.candidates, hfull, lookupAny]

/-- The meaning of a name is registered under one of its candidates. -/
theorem exists_lookup_of_resolve {s : Symbol} (h : r.resolve [kind] scope typeName = some s) :
    ∃ c ∈ Name.candidates scope typeName, r.lookup kind c = some s := by
  obtain ⟨c, hc, hs⟩ := List.exists_of_findSome?_eq_some h
  refine ⟨c, hc, ?_⟩
  simpa [lookupAny] using hs

end Resolve

end Registry

end Protolink
