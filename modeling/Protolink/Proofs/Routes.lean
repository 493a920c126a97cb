import Mathlib.Data.List.Basic
import Mathlib.Data.List.Induction
import Protolink.ImportPath
import Protolink.Proofs.Probing

/-!
# Ways between modules

A path is read as a walk: its pieces are pushed one by one onto the components of the place where
the walk starts.  A relative import is such a walk from the directory of the importing module, and
it has to end at the module that is imported, without a detour.

The two paths of an import are comparable if both are rooted, or if neither is and neither leads
above the place that it starts from; what lies above that place has no names, so no walk leads back
from there.

Main statements: `ImportPath.specifier_leads_between_places`, `ImportPath.specifier_leads_back`.
-/

namespace Protolink

/-! ## Pieces -/

namespace Text

variable {sep : Char} {cs ds : List Char}

theorem pieces_eq_splitOn (sep : Char) (cs : List Char) : pieces sep cs = cs.splitOn sep := by
  induction cs with
  | nil => rfl
  | cons c cs ih =>
    rw [pieces, ih, List.splitOn, List.splitOn, List.splitOnP_cons_eq_if_modifyHead]
    simp only [beq_iff_eq]

theorem pieces_append_cons (sep : Char) (cs ds : List Char) :
    pieces sep (cs ++ sep :: ds) = pieces sep cs ++ pieces sep ds := by
  simp only [pieces_eq_splitOn]
  exact List.splitOnP_append_cons cs ds (beq_self_eq_true sep)

theorem pieces_intercalate {ps : List (List Char)} (apart : ∀ p ∈ ps, sep ∉ p) (h : ps ≠ []) :
    pieces sep ([sep].intercalate ps) = ps := by
  rw [pieces_eq_splitOn]
  exact List.splitOn_intercalate sep apart h

theorem pieces_of_notMem (h : sep ∉ cs) : pieces sep cs = [cs] := by
  have apart : ∀ q ∈ [cs], sep ∉ q := List.forall_mem_singleton.mpr h
  have single := pieces_intercalate apart (List.cons_ne_nil _ _)
  rwa [List.intercalate_singleton] at single

theorem notMem_of_mem_pieces {p : List Char} (h : p ∈ pieces sep cs) : sep ∉ p := by
  induction cs generalizing p with
  | nil =>
    obtain rfl := List.mem_singleton.mp h
    exact List.not_mem_nil
  | cons c cs ih =>
    rw [pieces] at h
    split at h
    · rcases List.mem_cons.mp h with rfl | h
      · exact List.not_mem_nil
      · exact ih h
    · next hc =>
      cases hp : pieces sep cs with
      | nil => exact absurd hp (pieces_ne_nil sep cs)
      | cons q qs =>
        rw [hp] at h ih
        rcases List.mem_cons.mp h with rfl | h
        · exact List.not_mem_cons_of_ne_of_not_mem (Ne.symm hc) (ih List.mem_cons_self)
        · exact ih (List.mem_cons_of_mem q h)

end Text

namespace Path

variable {r : Bool} {c : Component} {cs st : List Component} {dir path way : List Char}

theorem rooted_append {xs ys : List Char} (h : xs ≠ []) : rooted (xs ++ ys) = rooted xs := by
  rw [rooted, rooted, List.head?_append_of_ne_nil _ h]

/-- A directory is rooted as the paths in it are. -/
theorem rooted_directory (path : List Char) : rooted (directory path) = rooted path := by
  by_cases h : '/' ∈ path
  · obtain ⟨before, after, rfl, hafter⟩ := Text.exists_last h
    rw [directory, Text.cutLast?_append_cons hafter]
    simp only
    split
    · cases before with
      | nil => rfl
      | cons c before => rfl
    · next hall =>
      have hne : (before.reverse.dropWhile (· == '/')).reverse ≠ [] := by
        rw [ne_eq, List.reverse_eq_nil_iff, List.dropWhile_eq_nil_iff]
        simpa using hall
      obtain ⟨slashes, hbefore⟩ := List.dropWhile_suffix (l := before.reverse) (· == '/')
      have hkept := congrArg List.reverse hbefore
      rw [List.reverse_append, List.reverse_reverse] at hkept
      conv_rhs => rw [← hkept, List.append_assoc]
      exact (rooted_append hne).symm
  · rw [directory, Text.cutLast?_of_notMem h]
    cases path with
    | nil => rfl
    | cons c path =>
      refine (beq_eq_false_iff_ne.mpr fun heq => h ?_).symm
      exact Option.some.inj heq ▸ List.mem_cons_self

/-- The components that a way goes through one by one. -/
def steps (way : List Char) : List Component :=
  (Text.pieces '/' way).filter fun c => c ≠ [] ∧ c ≠ here

/-! ## Walks -/

/-- The place, last component first, that a walk from `st` ends at. -/
def walk (r : Bool) (st cs : List Component) : List Component := cs.foldl (push r) st

@[simp] theorem walk_nil (r : Bool) (st : List Component) : walk r st [] = st := rfl

theorem walk_append (r : Bool) (st cs ds : List Component) :
    walk r st (cs ++ ds) = walk r (walk r st cs) ds := List.foldl_append

theorem walk_cons (r : Bool) (st : List Component) (c : Component) (cs : List Component) :
    walk r st (c :: cs) = walk r (push r st c) cs := rfl

theorem walk_concat (r : Bool) (st cs : List Component) (c : Component) :
    walk r st (cs ++ [c]) = push r (walk r st cs) c := walk_append r st cs [c]

theorem components_eq_walk (path : List Char) :
    components path = (walk (rooted path) [] (Text.pieces '/' path)).reverse := rfl

theorem push_of_still (h : c = [] ∨ c = here) : push r st c = st := if_pos h

/-- Pieces that are empty or a dot lead nowhere. -/
theorem walk_steps (r : Bool) (st : List Component) (way : List Char) :
    walk r st (Text.pieces '/' way) = walk r st (steps way) := by
  rw [steps]
  generalize Text.pieces '/' way = cs
  induction cs generalizing st with
  | nil => rfl
  | cons c cs ih =>
    by_cases h : c = [] ∨ c = here
    · rw [List.filter_cons_of_neg (by simpa [or_iff_not_imp_left] using h), walk_cons,
        push_of_still h, ih]
    · rw [List.filter_cons_of_pos (by simpa using h), walk_cons, walk_cons, ih]

/-- A way from a directory starts from the components of the directory. -/
theorem components_join (h : rooted way = false) :
    components (join dir way) =
      (walk (rooted dir) (components dir).reverse (steps way)).reverse := by
  rw [components_eq_walk dir, List.reverse_reverse, ← walk_steps, components_eq_walk, join, h]
  congr 1
  by_cases hdir : dir = []
  · subst hdir
    simp only [if_false, true_or, if_true, List.nil_append, h, Bool.false_eq_true]
    rfl
  simp only [Bool.false_eq_true, if_false, hdir, false_or]
  split
  · next hlast =>
    -- the separator is there, and the empty piece behind it leads nowhere
    obtain ⟨before, rfl⟩ := List.getLast?_eq_some_iff.mp hlast
    rw [rooted_append hdir, List.append_assoc, List.singleton_append, Text.pieces_append_cons,
      Text.pieces_append_cons, walk_append, walk_append]
    congr 1
  · rw [rooted_append hdir, Text.pieces_append_cons, walk_append]

theorem rooted_join (h : rooted way = false) : rooted (join dir way) = rooted dir := by
  rw [join, h]
  by_cases hdir : dir = []
  · subst hdir
    simp only [Bool.false_eq_true, if_false, true_or, if_true, List.nil_append, h]
    rfl
  · simp only [Bool.false_eq_true, if_false]
    split <;> exact rooted_append hdir

/-! ## Normal forms -/

/-- A component that names something below a directory. -/
structure Names (c : Component) : Prop where
  ne_nil : c ≠ []
  ne_here : c ≠ here
  ne_up : c ≠ up
  slash : '/' ∉ c

/-- What walks end at, last component first: names, and below them, if nothing is rooted, some
components that lead up. -/
def Normal (r : Bool) (st : List Component) : Prop :=
  ∃ names n, st = names ++ List.replicate n up ∧ (∀ c ∈ names, Names c) ∧ (r = true → n = 0)

theorem Normal.push (h : Normal r st) (hc : '/' ∉ c) : Normal r (push r st c) := by
  obtain ⟨names, n, rfl, hnames, hr⟩ := h
  unfold Path.push
  split
  · exact ⟨names, n, rfl, hnames, hr⟩
  · next still =>
    rw [not_or] at still
    split
    · next hup =>
      cases names with
      | nil =>
        cases n with
        | zero =>
          cases r with
          | true => exact ⟨[], 0, rfl, hnames, hr⟩
          | false => exact ⟨[], 1, rfl, hnames, nofun⟩
        | succ n =>
          refine ⟨[], n + 2, ?_, hnames, fun h => absurd (hr h) (Nat.succ_ne_zero n)⟩
          simp [List.replicate_succ]
      | cons last names =>
        have hlast : last ≠ up := (hnames last List.mem_cons_self).ne_up
        simp only [List.cons_append, hlast, if_false]
        exact ⟨names, n, rfl, fun c hc => hnames c (List.mem_cons_of_mem _ hc), hr⟩
    · next hup =>
      refine ⟨c :: names, n, rfl, ?_, hr⟩
      intro d hd
      rcases List.mem_cons.mp hd with rfl | hd
      · exact ⟨still.1, still.2, hup, hc⟩
      · exact hnames d hd

theorem Normal.walk (h : Normal r st) (hcs : ∀ c ∈ cs, '/' ∉ c) : Normal r (walk r st cs) := by
  induction cs generalizing st with
  | nil => exact h
  | cons c cs ih =>
    exact ih (h.push (hcs c List.mem_cons_self)) fun d hd => hcs d (List.mem_cons_of_mem _ hd)

theorem normal_components (path : List Char) : Normal (rooted path) (components path).reverse := by
  rw [components_eq_walk, List.reverse_reverse]
  refine Normal.walk ⟨[], 0, rfl, ?_, fun _ => rfl⟩ fun _ => Text.notMem_of_mem_pieces
  intro c hc
  cases hc

/-- A path that does not lead above its start is made of names. -/
theorem names_of_mem_components (h : rooted path = true ∨ (components path).head? ≠ some up)
    (hc : c ∈ components path) : Names c := by
  obtain ⟨names, n, heq, hnames, hr⟩ := normal_components path
  have hpath : components path = List.replicate n up ++ names.reverse := by
    rw [← List.reverse_reverse (components path), heq, List.reverse_append, List.reverse_replicate]
  have : n = 0 := by
    rcases h with h | h
    · exact hr h
    · cases n with
      | zero => rfl
      | succ n => exact absurd (by rw [hpath]; rfl) h
  subst this
  rw [hpath, List.replicate_zero, List.nil_append, List.mem_reverse] at hc
  exact hnames c hc

/-! ## Up and down -/

theorem push_of_names (h : Names c) : push r st c = c :: st := by
  unfold push
  rw [if_neg (not_or.mpr ⟨h.ne_nil, h.ne_here⟩), if_neg h.ne_up]

theorem push_up_of_names (h : Names c) : push r (c :: st) up = st := by
  have : ¬(up = [] ∨ up = here) := by decide
  simp only [push, this, h.ne_up, if_false, if_true]

theorem walk_names (h : ∀ c ∈ cs, Names c) : walk r st cs = cs.reverse ++ st := by
  induction cs generalizing st with
  | nil => rfl
  | cons c cs ih =>
    rw [walk_cons, push_of_names (h c List.mem_cons_self),
      ih fun d hd => h d (List.mem_cons_of_mem _ hd), List.reverse_cons, List.append_assoc,
      List.singleton_append]

theorem walk_replicate_up (r : Bool) (st : List Component) (h : ∀ c ∈ cs, Names c) :
    walk r (cs ++ st) (List.replicate cs.length up) = st := by
  induction cs with
  | nil => rfl
  | cons c cs ih =>
    rw [List.length_cons, List.replicate_succ, walk_cons, List.cons_append,
      push_up_of_names (h c List.mem_cons_self)]
    exact ih fun d hd => h d (List.mem_cons_of_mem _ hd)

/-- Up from a directory to one above it, and down from there. -/
theorem walk_up_down {shared away down : List Component} (haway : ∀ c ∈ away, Names c)
    (hdown : ∀ c ∈ down, Names c) :
    walk r (shared ++ away).reverse (List.replicate away.length up ++ down) =
      (shared ++ down).reverse := by
  have hback := walk_replicate_up r shared.reverse
    fun c (hc : c ∈ away.reverse) => haway c (List.mem_reverse.mp hc)
  rw [List.length_reverse] at hback
  rw [walk_append, List.reverse_append, hback, walk_names hdown, List.reverse_append]

/-! ## The last shared directory -/

/-- The longest prefix of two paths, and what follows on both sides. -/
theorem exists_shared (start target : List Component) : ∃ shared away down,
    start = shared ++ away ∧ target = shared ++ down ∧
      (∀ common, common <+: start → common <+: target → common <+: shared) ∧
      relative start target = List.replicate away.length up ++ down := by
  induction start generalizing target with
  | nil =>
    refine ⟨[], [], target, rfl, rfl, fun common h _ => h, ?_⟩
    simp [relative, sharedDepth]
  | cons c start ih =>
    cases target with
    | nil =>
      refine ⟨[], c :: start, [], rfl, rfl, fun common _ h => h, ?_⟩
      simp [relative, sharedDepth]
    | cons d target =>
      by_cases hcd : c = d
      · subst hcd
        obtain ⟨shared, away, down, hstart, htarget, hlongest, hrel⟩ := ih target
        refine ⟨c :: shared, away, down, by rw [hstart]; rfl, by rw [htarget]; rfl, ?_, ?_⟩
        · intro common h₁ h₂
          cases common with
          | nil => exact List.nil_prefix
          | cons e common =>
            rw [List.cons_prefix_cons] at h₁ h₂ ⊢
            exact ⟨h₁.1, hlongest common h₁.2 h₂.2⟩
        · rw [← hrel]
          simp [relative, sharedDepth]
      · refine ⟨[], c :: start, d :: target, rfl, rfl, ?_, ?_⟩
        · intro common h₁ h₂
          cases common with
          | nil => exact List.nil_prefix
          | cons e common =>
            rw [List.cons_prefix_cons] at h₁ h₂
            exact absurd (h₁.1.symm.trans h₂.1) hcd
        · simp [relative, sharedDepth, hcd]

/-- A step leaves all but the last component, or adds one. -/
theorem push_cases (r : Bool) (st : List Component) (c : Component) :
    push r st c = st ∨ (∃ d, push r st c = d :: st) ∨ ∃ d, st = d :: push r st c := by
  unfold push
  split
  · exact .inl rfl
  · split
    · cases st with
      | nil =>
        cases r with
        | true => exact .inl rfl
        | false => exact .inr (.inl ⟨up, rfl⟩)
      | cons last rest =>
        by_cases h : last = up
        · exact .inr (.inl ⟨up, by simp only [h, if_true]⟩)
        · exact .inr (.inr ⟨last, by simp only [h, if_false]⟩)
    · exact .inr (.inl ⟨c, rfl⟩)

/-- A walk needs a step for every component that it leaves or enters. -/
theorem exists_kept (r : Bool) (st cs : List Component) : ∃ kept, kept <:+ st ∧
    kept <:+ walk r st cs ∧ st.length + (walk r st cs).length ≤ cs.length + 2 * kept.length := by
  induction cs using List.reverseRecOn with
  | nil => exact ⟨st, List.suffix_rfl, List.suffix_rfl, by simp only [walk_nil]; omega⟩
  | append_singleton cs c ih =>
    obtain ⟨kept, hst, hend, hlen⟩ := ih
    have hmove := push_cases r (walk r st cs) c
    rw [walk_concat, List.length_append, List.length_singleton]
    generalize walk r st cs = before at hmove hend hlen ⊢
    generalize push r before c = after at hmove ⊢
    rcases hmove with rfl | ⟨d, rfl⟩ | ⟨d, rfl⟩
    · exact ⟨kept, hst, hend, by omega⟩
    · refine ⟨kept, hst, hend.trans (List.suffix_cons d before), ?_⟩
      rw [List.length_cons]
      omega
    · rw [List.length_cons] at hlen
      rcases List.suffix_cons_iff.mp hend with rfl | hend
      · refine ⟨after, (List.suffix_cons d after).trans hst, List.suffix_rfl, ?_⟩
        rw [List.length_cons] at hlen
        omega
      · exact ⟨kept, hst, hend, by omega⟩

/-! ## Direct ways -/

/-- A way without detours: it leaves `dir` up to the last directory that is shared with `target`
and goes down from there. -/
structure Direct (dir way target : List Char) : Prop where
  arrives : components (join dir way) = components target
  rooted_eq : rooted (join dir way) = rooted target
  gapless : [] ∉ Text.pieces '/' way
  turns : ∃ shared away down,
    components dir = shared ++ away ∧ components target = shared ++ down ∧
      (∀ common, common <+: components dir → common <+: components target → common <+: shared) ∧
      steps way = List.replicate away.length up ++ down ∧ up ∉ down
  shortest : ∀ other, rooted other = false → components (join dir other) = components target →
    (steps way).length ≤ (steps other).length

/-- Two paths that are read from the same place, and do not lead above it. -/
def Comparable (dir target : List Char) : Prop :=
  rooted dir = true ∧ rooted target = true ∨
    rooted dir = false ∧ rooted target = false ∧
      (components dir).head? ≠ some up ∧ (components target).head? ≠ some up

variable {target other : List Char}

theorem Comparable.rooted_eq (h : Comparable dir target) : rooted dir = rooted target := by
  rcases h with ⟨hd, ht⟩ | ⟨hd, ht, -⟩
  · rw [hd, ht]
  · rw [hd, ht]

theorem Comparable.names (h : Comparable dir target) :
    (∀ c ∈ components dir, Names c) ∧ ∀ c ∈ components target, Names c := by
  rcases h with ⟨hd, ht⟩ | ⟨-, -, hd, ht⟩
  · exact ⟨fun c => names_of_mem_components (.inl hd), fun c => names_of_mem_components (.inl ht)⟩
  · exact ⟨fun c => names_of_mem_components (.inr hd), fun c => names_of_mem_components (.inr ht)⟩

theorem rooted_eq_false (h : [] ∉ Text.pieces '/' way) : rooted way = false := by
  cases way with
  | nil => rfl
  | cons c way =>
    by_cases hc : c = '/'
    · subst hc
      exact absurd List.mem_cons_self h
    · rw [rooted, List.head?_cons, beq_eq_false_iff_ne]
      exact fun heq => hc (Option.some.inj heq)

theorem length_steps_ge (h : rooted other = false)
    (harrives : components (join dir other) = components target) {shared away down : List Component}
    (hdir : components dir = shared ++ away) (htarget : components target = shared ++ down)
    (hlongest : ∀ common, common <+: components dir → common <+: components target →
      common <+: shared) : away.length + down.length ≤ (steps other).length := by
  obtain ⟨kept, hst, hend, hlen⟩ :=
    exists_kept (rooted dir) (components dir).reverse (steps other)
  rw [components_join h, List.reverse_eq_iff] at harrives
  rw [harrives] at hend hlen
  have hkept := hlongest kept.reverse
    (by rw [← List.reverse_suffix, List.reverse_reverse]; exact hst)
    (by rw [← List.reverse_suffix, List.reverse_reverse]; exact hend)
  have := hkept.length_le
  simp only [List.length_reverse, hdir, htarget, List.length_append] at this hlen
  omega

/-- The steps from the last shared directory are a direct way. -/
theorem Comparable.direct (h : Comparable dir target) (gapless : [] ∉ Text.pieces '/' way)
    (hsteps : steps way = relative (components dir) (components target)) :
    Direct dir way target := by
  have hway := rooted_eq_false gapless
  obtain ⟨hdirNames, htargetNames⟩ := h.names
  obtain ⟨shared, away, down, hdir, htarget, hlongest, hrel⟩ :=
    exists_shared (components dir) (components target)
  rw [hrel] at hsteps
  have haway : ∀ c ∈ away, Names c :=
    fun c hc => hdirNames c (hdir ▸ List.mem_append_right shared hc)
  have hdown : ∀ c ∈ down, Names c :=
    fun c hc => htargetNames c (htarget ▸ List.mem_append_right shared hc)
  exact
    { arrives := by
        rw [components_join hway, hdir, hsteps, walk_up_down haway hdown, List.reverse_reverse,
          htarget]
      rooted_eq := (rooted_join hway).trans h.rooted_eq
      gapless
      turns := ⟨shared, away, down, hdir, htarget, hlongest, hsteps,
        fun hup => (hdown up hup).ne_up rfl⟩
      shortest := by
        intro other hother harrives
        rw [hsteps, List.length_append, List.length_replicate]
        exact length_steps_ge hother harrives hdir htarget hlongest }

/-! ## Written ways -/

/-- A component that a way can be written with. -/
structure Writable (c : Component) : Prop where
  ne_nil : c ≠ []
  ne_here : c ≠ here
  slash : '/' ∉ c

theorem writable_up : Writable up := ⟨by decide, by decide, by decide⟩

theorem Names.writable (h : Names c) : Writable c := ⟨h.ne_nil, h.ne_here, h.slash⟩

theorem Comparable.writable_relative (h : Comparable dir target) :
    ∀ c ∈ relative (components dir) (components target), Writable c := by
  intro c hc
  rcases List.mem_append.mp hc with hc | hc
  · obtain rfl := List.eq_of_mem_replicate hc
    exact writable_up
  · exact (h.names.2 c (List.mem_of_mem_drop hc)).writable

theorem pieces_written (h : ∀ c ∈ cs, Writable c) :
    Text.pieces '/' (written cs) = if cs = [] then [here] else cs := by
  rw [written]
  split
  · rfl
  · next hcs => exact Text.pieces_intercalate (fun c hc => (h c hc).slash) hcs

theorem filter_writable (h : ∀ c ∈ cs, Writable c) :
    (cs.filter fun c => c ≠ [] ∧ c ≠ here) = cs := by
  refine List.filter_eq_self.mpr fun c hc => ?_
  exact decide_eq_true ⟨(h c hc).ne_nil, (h c hc).ne_here⟩

theorem steps_written (h : ∀ c ∈ cs, Writable c) : steps (written cs) = cs := by
  rw [steps, pieces_written h]
  split
  · next hcs => rw [hcs]; rfl
  · exact filter_writable h

theorem gapless_written (h : ∀ c ∈ cs, Writable c) : [] ∉ Text.pieces '/' (written cs) := by
  rw [pieces_written h]
  split
  · decide
  · exact fun hmem => (h [] hmem).ne_nil rfl

/-- A dot in front of a way changes nothing. -/
theorem pieces_here (way : List Char) :
    Text.pieces '/' (here ++ '/' :: way) = here :: Text.pieces '/' way :=
  Text.pieces_append_cons '/' here way

theorem steps_here (way : List Char) : steps (here ++ '/' :: way) = steps way := by
  rw [steps, pieces_here]
  exact List.filter_cons_of_neg (by decide)

theorem gapless_here (h : [] ∉ Text.pieces '/' way) :
    [] ∉ Text.pieces '/' (here ++ '/' :: way) := by
  rw [pieces_here, List.mem_cons, not_or]
  exact ⟨by decide, h⟩

/-! ## The working directory -/

/-- A step after a normalised walk leads where it leads after the walk itself. -/
theorem walk_reverse_push {done : List Component} (h : Normal false done) (hc : '/' ∉ c)
    (r : Bool) (st : List Component) :
    walk r st (push false done c).reverse = push r (walk r st done.reverse) c := by
  by_cases still : c = [] ∨ c = here
  · rw [push_of_still still, push_of_still still]
  by_cases hup : c = up
  · subst hup
    obtain ⟨names, n, rfl, hnames, -⟩ := h
    cases names with
    | nil =>
      -- nothing but ways up: one more is added
      have hpush : push false (List.replicate n up) up = up :: List.replicate n up := by
        cases n with
        | zero => rfl
        | succ n => rfl
      rw [List.nil_append, hpush, List.reverse_cons, walk_concat]
    | cons last names =>
      have hlast : Names last := hnames last List.mem_cons_self
      rw [List.cons_append, push_up_of_names hlast, List.reverse_cons, walk_concat,
        push_of_names hlast, push_up_of_names hlast]
  · rw [not_or] at still
    rw [push_of_names ⟨still.1, still.2, hup, hc⟩, List.reverse_cons, walk_concat]

/-- A path may be normalised before it is walked. -/
theorem walk_walk (hcs : ∀ c ∈ cs, '/' ∉ c) (r : Bool) (st : List Component) :
    walk r st (walk false [] cs).reverse = walk r st cs := by
  induction cs using List.reverseRecOn with
  | nil => rfl
  | append_singleton cs c ih =>
    have hinit : ∀ d ∈ cs, '/' ∉ d := fun d hd => hcs d (List.mem_append_left _ hd)
    have hnormal : Normal false (walk false [] cs) :=
      Normal.walk ⟨[], 0, rfl, fun _ hd => (List.not_mem_nil hd).elim, fun _ => rfl⟩ hinit
    rw [walk_concat, walk_concat, walk_reverse_push hnormal (hcs c (by simp)), ih hinit]

theorem relative_append (cs start target : List Component) :
    relative (cs ++ start) (cs ++ target) = relative start target := by
  induction cs with
  | nil => rfl
  | cons c cs ih =>
    rw [← ih]
    simp [relative, sharedDepth]

section Absolute

variable [WorkingDirectory]

theorem absolute_of_rooted (h : rooted path = true) : absolute path = components path := by
  rw [absolute, join, if_pos h]

/-- A path that does not lead above the working directory is found below it. -/
theorem absolute_of_names (hr : rooted path = false) (h : ∀ c ∈ components path, Names c) :
    absolute path = components WorkingDirectory.path ++ components path := by
  rw [absolute, components_join hr, ← walk_steps,
    ← walk_walk (fun _ => Text.notMem_of_mem_pieces), ← hr, ← components_eq_walk, walk_names h,
    List.reverse_append, List.reverse_reverse, List.reverse_reverse]

/-- Between comparable paths the way does not depend on the working directory. -/
theorem Comparable.relative_absolute (h : Comparable dir target) :
    relative (absolute dir) (absolute target) = relative (components dir) (components target) := by
  obtain ⟨hdirNames, htargetNames⟩ := h.names
  rcases h with ⟨hd, ht⟩ | ⟨hd, ht, -⟩
  · rw [absolute_of_rooted hd, absolute_of_rooted ht]
  · rw [absolute_of_names hd hdirNames, absolute_of_names ht htargetNames, relative_append]

theorem rooted_join_path (way : List Char) :
    rooted (join WorkingDirectory.path way) = true := by
  cases h : rooted way with
  | true => rw [join, if_pos h, h]
  | false => rw [rooted_join h, WorkingDirectory.rooted]

theorem comparable_join (dir target : List Char) :
    Comparable (join WorkingDirectory.path dir) (join WorkingDirectory.path target) :=
  .inl ⟨rooted_join_path dir, rooted_join_path target⟩

end Absolute

end Path

namespace ImportPath

variable {home foreign : ImportPath}

/-- The directory of a module. -/
def directory (p : ImportPath) : List Char := Path.directory p.filename.toList

theorem reaches_iff : home.reaches foreign = true ↔
    (foreign.package = "" ∨ foreign.package = home.package) ∧ foreign.filename ≠ "" := by
  simp only [reaches, Bool.and_eq_true, Bool.or_eq_true, beq_iff_eq, bne_iff_ne]

/-- Two modules whose paths start at the same place: both at the root, or both at the output root,
above which neither leads. -/
def Comparable (home foreign : ImportPath) : Prop :=
  Path.rooted home.filename.toList = true ∧ Path.rooted foreign.stem.toList = true ∨
    Path.rooted home.filename.toList = false ∧ Path.rooted foreign.stem.toList = false ∧
      (Path.components home.directory).head? ≠ some Path.up ∧
      (Path.components foreign.stem.toList).head? ≠ some Path.up

theorem Comparable.paths (h : home.Comparable foreign) :
    Path.Comparable home.directory foreign.stem.toList := by
  rw [Path.Comparable, directory, Path.rooted_directory]
  exact h

section Relative

variable [WorkingDirectory]

/-- The text of a relative specifier. -/
theorem toList_specifier (h : home.reaches foreign = true) :
    (home.specifier foreign).toList =
      if (home.route foreign).head? = some Path.up then Path.written (home.route foreign)
      else Path.here ++ '/' :: Path.written (home.route foreign) := by
  rw [specifier, if_pos h]
  simp only
  split
  · exact String.toList_ofList
  · rw [String.toList_append, String.toList_ofList, String.toList_ofList]
    rfl

/-- A relative specifier is the route, perhaps behind a dot. -/
theorem specifier_of_reaches (h : home.reaches foreign = true) :
    (home.specifier foreign).toList = Path.written (home.route foreign) ∨
      (home.specifier foreign).toList =
        Path.here ++ '/' :: Path.written (home.route foreign) := by
  rw [toList_specifier h]
  split
  · exact .inl rfl
  · exact .inr rfl

/-- A relative specifier is direct between two paths if the route is the way between these. -/
theorem direct_specifier {dir target : List Char} (h : home.reaches foreign = true)
    (comparable : Path.Comparable dir target)
    (hroute : home.route foreign =
      Path.relative (Path.components dir) (Path.components target)) :
    Path.Direct dir (home.specifier foreign).toList target := by
  have hwritable : ∀ c ∈ home.route foreign, Path.Writable c :=
    hroute ▸ comparable.writable_relative
  rcases specifier_of_reaches h with hspec | hspec
  · rw [hspec]
    refine comparable.direct (Path.gapless_written hwritable) ?_
    rw [Path.steps_written hwritable, hroute]
  · rw [hspec]
    refine comparable.direct (Path.gapless_here (Path.gapless_written hwritable)) ?_
    rw [Path.steps_here, Path.steps_written hwritable, hroute]

/-- Wherever the program works, the text by which a module imports another by a relative path leads
from the place of its directory to the place of the other, on the shortest way. -/
theorem specifier_leads_between_places (home foreign : ImportPath)
    (h : home.reaches foreign = true) :
    Path.Direct (Path.join WorkingDirectory.path home.directory) (home.specifier foreign).toList
      (Path.join WorkingDirectory.path foreign.stem.toList) :=
  direct_specifier h (Path.comparable_join _ _) rfl

/-- From above the output root the way leads back through its name. -/
example :
    letI : WorkingDirectory := .ofPath "/home/build".toList
    specifier ⟨"../x.ts", "", ""⟩ ⟨"b.ts", "", ""⟩ = "./build/b" := by
  decide +kernel

/-- The text by which a module imports another by a relative path leads from the directory of the
one to the other, on the shortest way. -/
theorem specifier_leads_back (home foreign : ImportPath) (known : foreign.filename ≠ "")
    (near : foreign.package = "" ∨ foreign.package = home.package)
    (comparable : home.Comparable foreign) :
    Path.Direct home.directory (home.specifier foreign).toList foreign.stem.toList :=
  direct_specifier (reaches_iff.mpr ⟨near, known⟩) comparable.paths
    comparable.paths.relative_absolute

end Relative

/-- A home below a directory that is left on the way, and a foreign module written with a dot and
two slashes. -/
theorem specifier_leads_back_detour :
    Path.Direct "a/b/../x".toList "../y/z".toList "./a//y/z".toList := by
  let : WorkingDirectory := .ofPath "/work".toList
  let home : ImportPath := ⟨"a/b/../x/home.ts", "", ""⟩
  let foreign : ImportPath := ⟨"./a//y/z.d.ts", "", ""⟩
  have directory : home.directory = "a/b/../x".toList := by decide +kernel
  have stem : foreign.stem = "./a//y/z" := by decide +kernel
  have way : home.specifier foreign = "../y/z" := by decide +kernel
  have h := specifier_leads_back home foreign (by decide) (.inl rfl) (.inr (by decide +kernel))
  rwa [directory, stem, way] at h

end ImportPath

end Protolink
