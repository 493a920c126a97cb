import Protolink.Proofs.Routes

/-!
# The form of relative specifiers

A specifier that is not to be taken for a package begins with a dot or with two dots, and a slash.
The specifiers of modules that are reached by a relative path have this form, with one exception:
the way to the parent of the directory that the importing module is in is two dots and nothing else.

What the parent is depends on the place of the output root, unless no path leads above this root.  A
path below the place where it starts has its directory there as well, because a walk that has left
this place upwards does not come back.

Main statement: `ImportPath.specifier_dotted_iff`.
-/

namespace Protolink

namespace Path

variable {r : Bool} {c : Component} {cs st start target : List Component} {path way : List Char}

/-- A path that lies below the place where it starts. -/
structure Inside (path : List Char) : Prop where
  rooted : rooted path = false
  head : (components path).head? ≠ some up

instance (path : List Char) : Decidable (Inside path) :=
  decidable_of_iff (Path.rooted path = false ∧ (components path).head? ≠ some up)
    ⟨fun ⟨h, h'⟩ => ⟨h, h'⟩, fun ⟨h, h'⟩ => ⟨h, h'⟩⟩

theorem Inside.absolute [WorkingDirectory] (h : Inside path) :
    absolute path = components WorkingDirectory.path ++ components path :=
  absolute_of_names h.rooted fun _ => names_of_mem_components (.inr h.head)

/-- A way that begins with a dot or with two dots, and a slash. -/
def Dotted (way : List Char) : Prop := here ++ ['/'] <+: way ∨ up ++ ['/'] <+: way

instance (way : List Char) : Decidable (Dotted way) := inferInstanceAs (Decidable (_ ∨ _))

/-! ## Directories of paths -/

theorem push_getLast? (h : st.getLast? = some up) : (push r st c).getLast? = some up := by
  unfold push
  split
  · exact h
  · split
    · cases st with
      | nil => exact absurd h (by simp)
      | cons last rest =>
        simp only
        split
        · rwa [List.getLast?_cons_cons]
        · next hlast =>
          cases rest with
          | nil => exact absurd (Option.some.inj h) hlast
          | cons d rest => rwa [List.getLast?_cons_cons] at h
    · cases st with
      | nil => exact absurd h (by simp)
      | cons last rest => rwa [List.getLast?_cons_cons]

/-- A walk that is above the place where paths start stays there. -/
theorem walk_getLast? (h : st.getLast? = some up) : (walk r st cs).getLast? = some up := by
  induction cs generalizing st with
  | nil => exact h
  | cons c cs ih => exact ih (push_getLast? h)

/-- A path with a slash, if it is not rooted, goes on behind its directory. -/
theorem exists_below_directory (h : '/' ∈ path) (hr : rooted path = false) :
    ∃ rest, path = directory path ++ '/' :: rest := by
  obtain ⟨before, after, rfl, hafter⟩ := Text.exists_last h
  have some_name : ¬before.all (· == '/') = true := by
    intro hall
    cases before with
    | nil => exact absurd hr (by simp [rooted])
    | cons c before =>
      rw [List.all_cons, Bool.and_eq_true, beq_iff_eq] at hall
      exact absurd hr (by simp [rooted, hall.1])
  rw [directory, Text.cutLast?_append_cons hafter]
  simp only [some_name, Bool.false_eq_true, if_false]
  have parts := congrArg List.reverse
    (List.takeWhile_append_dropWhile (p := (· == '/')) (l := before.reverse))
  rw [List.reverse_append, List.reverse_reverse] at parts
  -- the slashes at the end of the directory are left out, so the rest begins with one of them
  cases hslashes : (before.reverse.takeWhile (· == '/')).reverse with
  | nil =>
    refine ⟨after, ?_⟩
    conv_lhs => rw [← parts, hslashes, List.append_nil]
  | cons c slashes =>
    have hc : c ∈ before.reverse.takeWhile (· == '/') := by
      rw [← List.mem_reverse, hslashes]
      exact List.mem_cons_self
    obtain rfl : c = '/' := by simpa using List.mem_takeWhile_imp hc
    refine ⟨slashes ++ '/' :: after, ?_⟩
    conv_lhs => rw [← parts, hslashes, List.append_assoc, List.cons_append]

/-- What lies below the place where paths start has its directory there. -/
theorem Inside.directory (h : Inside path) : Inside (directory path) := by
  refine ⟨(rooted_directory path).trans h.rooted, fun hup => ?_⟩
  by_cases hslash : '/' ∈ path
  · obtain ⟨rest, hrest⟩ := exists_below_directory hslash h.rooted
    have hdir : Path.directory path ≠ [] := by
      intro hnil
      rw [hnil] at hup
      exact absurd hup (by decide)
    apply h.head
    rw [components_eq_walk, List.head?_reverse] at hup ⊢
    have hpieces : Text.pieces '/' path =
        Text.pieces '/' (Path.directory path) ++ Text.pieces '/' rest := by
      conv_lhs => rw [hrest, Text.pieces_append_cons]
    rw [hpieces, walk_append, ← rooted_directory path]
    exact walk_getLast? hup
  · rw [Path.directory, Text.cutLast?_of_notMem hslash] at hup
    exact absurd hup (by decide)

/-! ## The way to the parent directory -/

/-- The components of the parent of a directory. -/
theorem components_join_up (dir : List Char) :
    components (join dir up) = (push (rooted dir) (components dir).reverse up).reverse :=
  components_join rfl

theorem relative_dropLast (init : List Component) (c : Component) :
    relative (init ++ [c]) init = [up] := by
  obtain ⟨shared, away, down, hstart, htarget, hlongest, hrel⟩ :=
    exists_shared (init ++ [c]) init
  have hinit : init <+: shared := hlongest init (List.prefix_append init [c]) List.prefix_rfl
  have hlength : init.length = shared.length + down.length := by
    rw [← List.length_append, ← htarget]
  obtain rfl : down = [] := List.eq_nil_of_length_eq_zero (by have := hinit.length_le; omega)
  rw [List.append_nil] at htarget
  subst htarget
  obtain rfl := List.append_cancel_left hstart
  exact hrel

/-- The way from a directory is two dots exactly to the one that it is in. -/
theorem relative_eq_up_iff (htarget : up ∉ target) :
    relative start target = [up] ↔ ∃ c, start = target ++ [c] := by
  constructor
  · intro hway
    obtain ⟨shared, away, down, rfl, rfl, -, hrel⟩ := exists_shared start target
    rw [hway] at hrel
    cases away with
    | nil =>
      obtain rfl : down = [up] := hrel.symm
      exact absurd (List.mem_append_right shared List.mem_cons_self) htarget
    | cons c away =>
      rw [List.length_cons, List.replicate_succ, List.cons_append, List.cons.injEq] at hrel
      obtain ⟨hreplicate, rfl⟩ := List.append_eq_nil_iff.mp hrel.2.symm
      obtain rfl : away = [] := List.eq_nil_of_length_eq_zero (by simpa using hreplicate)
      exact ⟨c, by rw [List.append_nil]⟩
  · rintro ⟨c, rfl⟩
    exact relative_dropLast target c

/-- Below the place where paths start, the directory that a directory is in is its parent. -/
theorem eq_append_singleton_iff {dir path : List Char} (hdir : Inside dir) (hpath : Inside path) :
    (∃ c, components dir = components path ++ [c]) ↔
      components path = components (join dir up) := by
  have names : ∀ c ∈ components dir, Names c := fun c => names_of_mem_components (.inr hdir.head)
  rw [components_join_up, hdir.rooted]
  rcases (components dir).eq_nil_or_concat with h | ⟨init, c, h⟩
  · rw [h]
    refine iff_of_false (by simp) fun heq => hpath.head ?_
    rw [heq]
    rfl
  · rw [List.concat_eq_append] at h
    rw [h] at names ⊢
    rw [List.reverse_append, List.reverse_singleton, List.singleton_append,
      push_up_of_names (names c (List.mem_append_right init List.mem_cons_self)),
      List.reverse_reverse]
    constructor
    · rintro ⟨d, hd⟩
      exact (List.append_inj' hd rfl).1.symm
    · intro heq
      exact ⟨c, by rw [heq]⟩

/-! ## Written ways -/

theorem not_dotted_up : ¬Dotted up := by decide

/-- A way that starts with two dots has the form of a relative one unless it ends with them. -/
theorem dotted_written (h : cs.head? = some up) : Dotted (written cs) ↔ cs ≠ [up] := by
  obtain ⟨rest, rfl⟩ := List.head?_eq_some_iff.mp h
  cases rest with
  | nil => exact iff_of_false not_dotted_up (not_not_intro rfl)
  | cons c rest =>
    refine iff_of_true (.inr ?_) (by simp)
    rw [written, if_neg (List.cons_ne_nil _ _), List.intercalate_cons_cons]
    exact List.prefix_append _ _

theorem dotted_here (way : List Char) : Dotted (here ++ '/' :: way) := by
  apply Or.inl
  rw [List.append_cons]
  exact List.prefix_append _ way

end Path

namespace ImportPath

section Places

variable [WorkingDirectory] {home foreign : ImportPath}

/-- Whether a module is named like the directory that the directory of `home` is in. -/
def NamedLikeParent (home foreign : ImportPath) : Prop :=
  ∃ c, Path.absolute home.directory = Path.absolute foreign.stem.toList ++ [c]

/-- A relative specifier has the form of one unless the way is two dots. -/
theorem dotted_specifier_iff (h : home.reaches foreign = true) :
    Path.Dotted (home.specifier foreign).toList ↔ home.route foreign ≠ [Path.up] := by
  rw [toList_specifier h]
  split
  · next hup => exact Path.dotted_written hup
  · next hup =>
    refine iff_of_true (Path.dotted_here _) fun hroute => hup ?_
    rw [hroute]
    rfl

/-- The way is two dots exactly to the module that is named like the parent. -/
theorem route_eq_up_iff (home foreign : ImportPath) :
    home.route foreign = [Path.up] ↔ home.NamedLikeParent foreign := by
  refine Path.relative_eq_up_iff fun hup => ?_
  exact (Path.names_of_mem_components (.inl (Path.rooted_join_path _)) hup).ne_up rfl

/-- Of paths that do not lead above the output root, it does not matter where this root is. -/
theorem namedLikeParent_iff (hhome : Path.Inside home.filename.toList)
    (hforeign : Path.Inside foreign.stem.toList) :
    home.NamedLikeParent foreign ↔ Path.components foreign.stem.toList =
      Path.components (Path.join home.directory Path.up) := by
  have hdirectory : Path.Inside home.directory := hhome.directory
  rw [← Path.eq_append_singleton_iff hdirectory hforeign, NamedLikeParent,
    hdirectory.absolute, hforeign.absolute]
  simp only [List.append_assoc, List.append_cancel_left_eq]

/-- The specifier of a module that is reached by a relative path begins with a dot or with two dots,
and a slash, unless the module is named like the parent of the directory of the importing module;
then it is two dots.  Whether it is named so can be read off the paths as they are written, if the
one of the module does not lead above the output root without its extension either. -/
theorem specifier_dotted_iff (home foreign : ImportPath) (known : foreign.filename ≠ "")
    (near : foreign.package = "" ∨ foreign.package = home.package)
    (inside : ∀ p ∈ [home, foreign], Path.Inside p.filename.toList) :
    (Path.Dotted (home.specifier foreign).toList ↔ ¬home.NamedLikeParent foreign) ∧
    (home.NamedLikeParent foreign → home.specifier foreign = "..") ∧
    (Path.Inside foreign.stem.toList →
      (home.NamedLikeParent foreign ↔ Path.components foreign.stem.toList =
        Path.components (Path.join home.directory Path.up))) := by
  have reached : home.reaches foreign = true := reaches_iff.mpr ⟨near, known⟩
  refine ⟨?_, fun parent => ?_, namedLikeParent_iff (inside home List.mem_cons_self)⟩
  · rw [dotted_specifier_iff reached, ne_eq, route_eq_up_iff]
  · rw [← String.toList_inj, toList_specifier reached, (route_eq_up_iff home foreign).mpr parent]
    rfl

end Places

/-- Two modules that are imported into a directory: one from the directory above it, and the one
that is named like that directory. -/
theorem specifier_dotted_iff_above :
    let : WorkingDirectory := .ofPath "/work".toList
    let home : ImportPath := ⟨"a/b/x.ts", "", ""⟩
    Path.Dotted (home.specifier ⟨"a/c.ts", "", ""⟩).toList ∧
      home.specifier ⟨"a.ts", "", ""⟩ = ".." := by
  intro cwd home
  have sibling := specifier_dotted_iff home ⟨"a/c.ts", "", ""⟩ (by decide) (.inl rfl)
    (by decide +kernel)
  have parent := specifier_dotted_iff home ⟨"a.ts", "", ""⟩ (by decide) (.inl rfl)
    (by decide +kernel)
  refine ⟨sibling.1.mpr fun named => ?_, parent.2.1 ?_⟩
  · exact absurd ((sibling.2.2 (by decide +kernel)).mp named) (by decide +kernel)
  · exact (parent.2.2 (by decide +kernel)).mpr (by decide +kernel)

/-- Not every relative specifier has a slash behind its dots. -/
theorem specifier_not_dotted :
    letI : WorkingDirectory := .ofPath "/work".toList
    let home : ImportPath := ⟨"a/b/x.ts", "", ""⟩
    let foreign : ImportPath := ⟨"a.ts", "", ""⟩
    foreign.filename ≠ "" ∧ (foreign.package = "" ∨ foreign.package = home.package) ∧
      (∀ p ∈ [home, foreign], Path.Inside p.filename.toList) ∧
      ¬Path.Dotted (home.specifier foreign).toList := by
  decide +kernel

end ImportPath

end Protolink
