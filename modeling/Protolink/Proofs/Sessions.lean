import Protolink.Proofs.Journal
import Protolink.Proofs.Unfinished

/-!
# Files in a session

In a session files are declared, linked and given further keys in any order, and a step that fails
leaves what it has done.  Through all of this the files of the schema keep names of their own, and
the table of files leads to one of them from each of its keys: the schema is `Indexed`.  Two things
follow.  A link works on one file, which `Indexed.linkFile_eq` finds in its place among the others;
and a file that is declared and not linked since is as it was made, which `Pending.mem` says.
-/

namespace Protolink

variable {σ β : Type}

/-! ## Links of one among many -/

namespace Link

theorem each_of_unwanted {wanted : β → Bool} {step : Link β Unit} {bs : List β}
    (h : ∀ b ∈ bs, wanted b = false) : each wanted step bs = .ok () bs := by
  induction bs with
  | nil => rfl
  | cons b bs ih =>
    rw [List.forall_mem_cons] at h
    simp only [each, h.1, Bool.false_eq_true, if_false, ih h.2]

/-- A loop in which one element is wanted works on this one alone. -/
theorem each_single {wanted : β → Bool} (step : Link β Unit) {front back : List β} {b : β}
    (hfront : ∀ c ∈ front, wanted c = false) (hb : wanted b = true)
    (hback : ∀ c ∈ back, wanted c = false) : each wanted step (front ++ b :: back) =
      within (fun _ => b) (fun c _ => front ++ c :: back) step (front ++ b :: back) := by
  induction front with
  | nil =>
    simp only [List.nil_append, each, within, hb, if_true, each_of_unwanted hback]
    cases step b <;> rfl
  | cons c front ih =>
    rw [List.forall_mem_cons] at hfront
    simp only [List.cons_append, each, hfront.1, Bool.false_eq_true, if_false, ih hfront.2, within]
    cases step b <;> rfl

theorem within_eq_ok_iff {part : σ → β} {put : β → σ → σ} {step : Link β Unit} {s s' : σ} :
    within part put step s = .ok () s' ↔ ∃ b, step (part s) = .ok () b ∧ s' = put b s := by
  unfold within
  cases step (part s) <;> simp [eq_comm]

theorem within_eq_error_iff {part : σ → β} {put : β → σ → σ} {step : Link β Unit} {s s' : σ}
    {e : Error} : within part put step s = .error e s' ↔
      ∃ b, step (part s) = .error e b ∧ s' = put b s := by
  unfold within
  cases step (part s) <;> simp [eq_comm]

end Link

/-! ## The table of files -/

/-- Besides the file itself, nothing that a file declares is a file. -/
theorem FileDescriptor.kind_ne_file_of_mem_tail (d : FileDescriptor) (o : Origin) :
    ∀ t ∈ (d.symbols o).tail, t.kind ≠ .file := by
  have one : ((⟨.file, o.name, o, none⟩ : Symbol) :: (d.symbols o).tail).filter
      (·.kind == .file) = [⟨.file, o.name, o, none⟩] := d.filter_file_symbols o
  rw [List.filter_cons_of_pos rfl, List.cons.injEq, List.filter_eq_nil_iff] at one
  exact fun t ht => by simpa using one.2 t ht

namespace Schema

/-- No two files have the same name, every file is registered under its name, and the table of files
holds files of the schema only, under whatever keys. -/
structure Indexed (s : Schema) : Prop where
  own : s.registry.OwnNames
  nodup : (s.files.map File.name).Nodup
  registered : ∀ n ∈ s.files.map File.name, (s.registry.lookup .file n).isSome = true
  found : ∀ c ∈ s.registry.journal, c.kind = .file → c.value ∈ s.files.map File.symbol

namespace Indexed

variable {s t : Schema}

theorem start : Indexed {} := ⟨nofun, List.nodup_nil, nofun, nofun⟩

/-- A file with a new name is added together with what it declares. -/
theorem add (hs : s.Indexed) {f : File} {rest : List Symbol}
    (admits : s.registry.Admits (f.symbol :: rest)) (others : ∀ u ∈ rest, u.kind ≠ .file) :
    Indexed ⟨s.registry.extend (f.symbol :: rest), s.files ++ [f]⟩ := by
  have free : s.registry.lookup .file f.name = none := admits.2 f.symbol List.mem_cons_self
  constructor
  · exact hs.own.extend _
  · rw [List.map_append, List.nodup_append']
    refine ⟨hs.nodup, List.nodup_singleton _, List.disjoint_singleton.mpr fun taken => ?_⟩
    have registered := hs.registered f.name taken
    rw [free] at registered
    exact absurd registered Bool.false_ne_true
  · rw [List.map_append]
    refine forall_mem_snoc (fun n hn => ?_) ?_
    · exact Registry.isSome_lookup_append _ (hs.registered n hn)
    · refine Option.ne_none_iff_isSome.mp fun none => ?_
      exact (Registry.lookup_extend_eq_none_iff.mp none).2 List.mem_cons_self
  · intro c hc hkind
    rw [List.map_append, List.mem_append]
    rcases List.mem_append.mp hc with hc | hc
    · exact .inl (hs.found c hc hkind)
    · obtain ⟨u, hu, rfl⟩ := List.mem_map.mp hc
      rcases List.mem_cons.mp hu with rfl | hu
      · exact .inr List.mem_cons_self
      · exact absurd hkind (others u hu)

/-- Links change neither names nor symbols. -/
theorem of_becomes (hs : s.Indexed) (h : s.Becomes t) : t.Indexed := by
  have names : t.files.map File.name = s.files.map File.name :=
    map_alike (h.files.imp fun f g hf =>
      show g.unlinked.name = f.unlinked.name from congrArg File.name hf.unlinked)
  have symbols : t.files.map File.symbol = s.files.map File.symbol :=
    map_alike (h.files.imp fun f g hf =>
      show g.unlinked.symbol = f.unlinked.symbol from congrArg File.symbol hf.unlinked)
  obtain ⟨own, nodup, registered, found⟩ := hs
  rw [← names] at nodup registered
  rw [← symbols] at found
  rw [← h.registry] at own registered found
  exact ⟨own, nodup, registered, found⟩

/-- A file gets a further key. -/
theorem addKey (hs : s.Indexed) {kind : DeclKind} {name key : String} {u : Symbol}
    (hu : s.registry.lookup kind name = some u) :
    Indexed { s with registry := ⟨s.registry.journal ++ [⟨kind, key, u⟩]⟩ } := by
  refine ⟨hs.own.alias hu, hs.nodup, fun n hn => ?_, forall_mem_snoc hs.found ?_⟩
  · exact Registry.isSome_lookup_append _ (hs.registered n hn)
  · rintro rfl
    obtain ⟨c, hc, hkind, rfl⟩ := Registry.exists_entry_of_lookup hu
    exact hs.found c hc hkind

end Indexed

variable (scheme : ImportScheme)

/-- A declaration adds a file with a new name, finished or not, or it leaves everything as it is. -/
theorem leaves_declare (generate : Bool) (d : FileDescriptor) (s : Schema) :
    leaves (declare scheme generate d) s = s ∨
    ∃ f rest, s.registry.Admits (f.symbol :: rest) ∧ (∀ u ∈ rest, u.kind ≠ .file) ∧
      leaves (declare scheme generate d) s =
        ⟨s.registry.extend (f.symbol :: rest), s.files ++ [f]⟩ := by
  have others := d.kind_ne_file_of_mem_tail (d.source scheme).origin
  cases h : declare scheme generate d s with
  | ok u t =>
    obtain ⟨⟨-, admits⟩, rfl⟩ := (declare_yields scheme generate d s t).mp h
    refine .inr ⟨d.node scheme generate, _, admits, others, ?_⟩
    rw [leaves, h]
    rfl
  | error e t =>
    rcases declare_eq_error h with rfl | ⟨rest, f, part, admits, rfl, -, -⟩
    · left
      rw [leaves, h, final]
    · obtain ⟨more, hmore⟩ := part
      rw [← hmore] at others
      refine .inr ⟨f, rest, admits, fun u hu => others u (List.mem_append_left _ hu), ?_⟩
      rw [leaves, h, final]

/-- What is registered already is not registered once more. -/
theorem leaves_reregister_eq {s : Schema} (h : s.registry.OwnNames) (kind : DeclKind)
    (name : String) : leaves (perform scheme (.reregister kind name)) s = s := by
  cases ht : s.registry.lookup kind name with
  | none => simp only [leaves, perform, reregister, ht, final]
  | some t => rw [leaves, perform_reregister scheme h ht, final]

theorem Indexed.after {s : Schema} (hs : s.Indexed) (step : Step) :
    (after scheme s step).Indexed := by
  rw [after_eq_leaves]
  cases step with
  | declare generate d =>
    rw [perform]
    rcases leaves_declare scheme generate d s with h | ⟨f, rest, admits, others, h⟩
    · rw [h]
      exact hs
    · rw [h]
      exact hs.add admits others
  | link name => exact hs.of_becomes (linkFile_becomes name s)
  | registerAs kind name key =>
    rw [perform]
    rcases leaves_registerAs kind name key s with h | ⟨t, ht, h⟩
    · rw [h]
      exact hs
    · rw [h]
      exact hs.addKey ht
  | reregister kind name =>
    rw [leaves_reregister_eq scheme hs.own]
    exact hs

theorem indexed_afterAll {s : Schema} (hs : s.Indexed) (steps : List Step) :
    (afterAll scheme s steps).Indexed := by
  induction steps generalizing s with
  | nil => exact hs
  | cons step steps ih => exact ih (hs.after scheme step)

/-- A step goes through if it has no fault. -/
theorem perform_of_fault?_eq_none {s : Schema} {step : Step} (h : fault? scheme s step = none) :
    perform scheme step s = .ok () (Schema.after scheme s step) := by
  unfold fault? at h
  unfold Schema.after
  cases hs : perform scheme step s with
  | ok u t => rfl
  | error e t =>
    rw [hs] at h
    exact absurd h nofun

theorem perform_of_fault?_eq_some {s : Schema} {step : Step} {e : Error}
    (h : fault? scheme s step = some e) :
    perform scheme step s = .error e (Schema.after scheme s step) := by
  unfold fault? at h
  unfold Schema.after
  cases hs : perform scheme step s with
  | ok u t =>
    rw [hs] at h
    exact absurd h nofun
  | error e' t =>
    rw [hs] at h
    rw [Option.some.inj h]

/-! ## One file among the others -/

/-- A link works on the one file that its key leads to. -/
theorem Indexed.linkFile_eq {s : Schema} (hs : s.Indexed) {key : String} {t : Symbol}
    (ht : s.registry.lookup .file key = some t) :
    ∃ front f back, s.files = front ++ f :: back ∧ f.symbol = t ∧
      linkFile key s = Link.within (fun _ => f)
        (fun g s => { s with files := front ++ g :: back }) (File.link s.registry) s := by
  obtain ⟨c, hc, hkind, rfl⟩ := Registry.exists_entry_of_lookup ht
  obtain ⟨f, hf, symbol⟩ := List.mem_map.mp (hs.found c hc hkind)
  obtain ⟨front, back, hfiles⟩ := List.append_of_mem hf
  refine ⟨front, f, back, hfiles, symbol, ?_⟩
  have nodup := hs.nodup
  rw [hfiles, List.map_append, List.map_cons, List.nodup_middle, List.nodup_cons,
    ← List.map_append] at nodup
  have others : ∀ g ∈ front ++ back, (g.name == c.value.fullName) = false := by
    intro g hg
    refine beq_false_of_ne fun name => nodup.1 ?_
    rw [show f.name = g.name from (congrArg Symbol.fullName symbol).trans name.symm]
    exact List.mem_map_of_mem hg
  rw [List.forall_mem_append] at others
  rw [Schema.linkFile_eq ht, linkWanted, Link.within, Link.within, hfiles,
    Link.each_single _ others.1 (beq_iff_eq.mpr (congrArg Symbol.fullName symbol)) others.2,
    Link.within]
  cases File.link s.registry f <;> rfl

/-- A step adds files to those that are there, or it links one of them in its place. -/
theorem Indexed.files_after {s : Schema} (hs : s.Indexed) (step : Step) :
    (∃ news, (Schema.after scheme s step).files = s.files ++ news) ∨
    ∃ key t front f back, step = .link key ∧ s.registry.lookup .file key = some t ∧
      f.symbol = t ∧ s.files = front ++ f :: back ∧ Schema.after scheme s step =
        { s with files := front ++ leaves (File.link s.registry) f :: back } := by
  have same : s.files = s.files ++ [] := (List.append_nil _).symm
  rw [after_eq_leaves]
  cases step with
  | declare generate d =>
    obtain ⟨fs, -, hfs⟩ := (declare_grows scheme generate d s).1.files
    exact .inl ⟨fs, hfs⟩
  | link key =>
    cases ht : s.registry.lookup .file key with
    | none =>
      refine .inl ⟨[], ?_⟩
      simp only [leaves, perform, linkFile, ht, final]
      exact same
    | some t =>
      obtain ⟨front, f, back, hfiles, symbol, hlink⟩ := hs.linkFile_eq ht
      refine .inr ⟨key, t, front, f, back, rfl, ht, symbol, hfiles, ?_⟩
      rw [leaves, perform, hlink]
      exact Link.leaves_within _ _ _ s
  | registerAs kind name key =>
    rw [perform]
    rcases leaves_registerAs kind name key s with h | ⟨t, -, h⟩
    · rw [h]
      exact .inl ⟨[], same⟩
    · rw [h]
      exact .inl ⟨[], same⟩
  | reregister kind name =>
    rw [leaves_reregister_eq scheme hs.own]
    exact .inl ⟨[], same⟩

/-- A step of a session links a file that has the given name. -/
def Links (s : Schema) (name : String) (step : Step) : Prop :=
  ∃ key t, step = .link key ∧ s.registry.lookup .file key = some t ∧ t.fullName = name

/-- A session in which a file was declared and not linked since. -/
inductive Pending (generate : Bool) (d : FileDescriptor) : Schema → Prop where
  | declared {steps : List Step} {s : Schema}
    (h : declare scheme generate d (afterAll scheme {} steps) = .ok () s) : Pending generate d s
  | later {s : Schema} (h : Pending generate d s) {step : Step} (other : ¬s.Links d.name step) :
    Pending generate d (after scheme s step)

namespace Pending

variable {scheme} {generate : Bool} {d : FileDescriptor} {s : Schema}

theorem indexed (h : Pending scheme generate d s) : s.Indexed := by
  induction h with
  | @declared steps s h =>
    have indexed := (indexed_afterAll scheme .start steps).after scheme (.declare generate d)
    rwa [after_eq_leaves, perform, leaves, h, final] at indexed
  | later _ _ ih => exact ih.after scheme _

/-- The file is as it was made. -/
theorem mem (h : Pending scheme generate d s) : d.node scheme generate ∈ s.files := by
  induction h with
  | declared h =>
    obtain ⟨-, rfl⟩ := (declare_yields scheme generate d _ _).mp h
    exact List.mem_append_right _ (List.mem_singleton_self _)
  | @later s h step other ih =>
    rcases h.indexed.files_after scheme step with
      ⟨news, files⟩ | ⟨key, t, front, f, back, rfl, ht, symbol, hfiles, left⟩
    · rw [files]
      exact List.mem_append_left _ ih
    · rw [left]
      rw [hfiles, List.mem_append, List.mem_cons] at ih
      rw [List.mem_append, List.mem_cons]
      refine ih.imp id (Or.imp (fun same => ?_) id)
      refine absurd ⟨key, t, rfl, ht, ?_⟩ other
      rw [← symbol, ← same]
      rfl

/-- A link of the file works on what was made of it. -/
theorem linkFile_eq (h : Pending scheme generate d s) {key : String} {t : Symbol}
    (ht : s.registry.lookup .file key = some t) (name : t.fullName = d.name) :
    ∃ front back, s.files = front ++ d.node scheme generate :: back ∧
      linkFile key s = Link.within (fun _ => d.node scheme generate)
        (fun g s => { s with files := front ++ g :: back }) (File.link s.registry) s := by
  obtain ⟨front, f, back, hfiles, symbol, hlink⟩ := h.indexed.linkFile_eq ht
  have hf : f ∈ s.files := hfiles ▸ List.mem_append_right _ List.mem_cons_self
  have same : f.name = (d.node scheme generate).name :=
    (congrArg Symbol.fullName symbol).trans name
  obtain rfl := List.inj_on_of_nodup_map h.indexed.nodup hf h.mem same
  exact ⟨front, back, hfiles, hlink⟩

/-- Steps that link nothing leave the file pending. -/
theorem laterAll (h : Pending scheme generate d s) {steps : List Step}
    (other : ∀ key, .link key ∉ steps) : Pending scheme generate d (afterAll scheme s steps) := by
  induction steps generalizing s with
  | nil => exact h
  | cons step steps ih =>
    refine ih (h.later ?_) fun key hkey => other key (List.mem_cons_of_mem _ hkey)
    rintro ⟨key, -, rfl, -⟩
    exact other key List.mem_cons_self

end Pending

theorem pending_shopFile :
    Pending .bundled true shopFiles[0] (after .bundled {} (.declare true shopFiles[0])) := by
  have clean : fault? .bundled {} (.declare true shopFiles[0]) = none := by decide +kernel
  have run := perform_of_fault?_eq_none .bundled clean
  rw [perform] at run
  exact @Pending.declared .bundled true shopFiles[0] [] _ run

/-- The two files of `shopFiles` are declared, and the first one gets a second key. -/
def shopSteps : List Step := [
  .declare true shopFiles[0], .declare false shopFiles[1],
  .registerAs .file "shop.proto" "goods.proto"]

theorem pending_shopSteps :
    Pending .bundled true shopFiles[0] (afterAll .bundled {} shopSteps) := by
  rw [shopSteps, afterAll, List.foldl_cons]
  exact pending_shopFile.laterAll (by simp)

end Schema

end Protolink
