import Protolink.Proofs.Routes

/-!
# File names without their extension

A module is imported under the name of its file without the extension, in its alias as well as in
its specifier.  There are two rules for what the extension is.  `.d.ts` is one extension; any other
begins at the last dot of the name, which has to stand in the last component, behind a character
that is no dot.  So the dots of directories stay, and so do those that a component begins with.

`ImportPath.Stripped` says this without saying how an extension is found.  It leaves one way to take
a name apart, and what is left of the name lies in the directory that the file is in.

Main statement: `ImportPath.stem_stripped`.
-/

namespace Protolink

namespace Path

variable {c : Component} {path before before' after ext ext' : List Char}

/-! ## The last component -/

/-- What stands behind the last slash of a path. -/
def base (path : List Char) : Component :=
  (Text.pieces '/' path).getLast (Text.pieces_ne_nil '/' path)

theorem base_of_notMem (h : '/' ∉ path) : base path = path := by
  simp only [base, Text.pieces_of_notMem h, List.getLast_singleton]

theorem base_append_cons (before : List Char) (h : '/' ∉ after) :
    base (before ++ '/' :: after) = after := by
  simp only [base, Text.pieces_append_cons, Text.pieces_of_notMem h, List.getLast_append_singleton]

/-- A text without slashes, at the end of a path, belongs to the last component. -/
theorem base_append (path : List Char) (h : '/' ∉ ext) : base (path ++ ext) = base path ++ ext := by
  by_cases slash : '/' ∈ path
  · obtain ⟨before, after, rfl, hafter⟩ := Text.exists_last slash
    have longer : '/' ∉ after ++ ext := List.not_mem_append hafter h
    rw [List.append_assoc, List.cons_append, base_append_cons before longer,
      base_append_cons before hafter]
  · rw [base_of_notMem slash, base_of_notMem (List.not_mem_append slash h)]

/-- A text without slashes, at the end of a path, does not change the directory. -/
theorem directory_append (path : List Char) (h : '/' ∉ ext) :
    directory (path ++ ext) = directory path := by
  by_cases slash : '/' ∈ path
  · obtain ⟨before, after, rfl, hafter⟩ := Text.exists_last slash
    have longer : '/' ∉ after ++ ext := List.not_mem_append hafter h
    rw [List.append_assoc, List.cons_append, directory, directory,
      Text.cutLast?_append_cons longer, Text.cutLast?_append_cons hafter]
  · rw [directory, directory, Text.cutLast?_of_notMem slash,
      Text.cutLast?_of_notMem (List.not_mem_append slash h)]

theorem takeWhile_reverse (path : List Char) :
    path.reverse.takeWhile (· != '/') = (base path).reverse := by
  by_cases slash : '/' ∈ path
  · obtain ⟨before, after, rfl, hafter⟩ := Text.exists_last slash
    have ends := Text.forall_mem_reverse_ne hafter
    rw [base_append_cons before hafter, List.reverse_append, List.reverse_cons, List.append_assoc,
      List.singleton_append, List.takeWhile_append_of_pos ends]
    simp
  · rw [base_of_notMem slash, List.takeWhile_eq_self_iff.mpr (Text.forall_mem_reverse_ne slash)]

theorem base_suffix (path : List Char) : base path <:+ path := by
  rw [← List.reverse_prefix, ← takeWhile_reverse]
  exact List.takeWhile_prefix _

/-! ## The last dot -/

/-- Whether a component has an extension: a dot behind some character that is no dot. -/
def Extended (c : Component) : Prop := ∃ front back, c = front ++ '.' :: back ∧ ∃ x ∈ front, x ≠ '.'

theorem extended_iff (c : Component) : Extended c ↔ '.' ∈ c.dropWhile (· == '.') := by
  constructor
  · rintro ⟨front, back, rfl, x, hx, hne⟩
    have rest : (front.dropWhile (· == '.')).isEmpty = false := by
      rw [List.isEmpty_eq_false_iff, ne_eq, List.dropWhile_eq_nil_iff]
      exact fun dots => hne (beq_iff_eq.mp (dots x hx))
    rw [List.dropWhile_append, rest]
    exact List.mem_append_right _ List.mem_cons_self
  · intro h
    have parts := List.takeWhile_append_dropWhile (p := (· == '.')) (l := c)
    have head := List.head?_dropWhile_not (· == '.') c
    cases hrest : c.dropWhile (· == '.') with
    | nil => exact absurd (hrest ▸ h) List.not_mem_nil
    | cons x rest =>
      rw [hrest] at h parts head
      have hx : x ≠ '.' := by simpa using head
      obtain ⟨front, back, rfl⟩ := List.append_of_mem
        ((List.mem_cons.mp h).resolve_left (Ne.symm hx))
      refine ⟨c.takeWhile (· == '.') ++ x :: front, back, ?_, x, ?_, hx⟩
      · rw [List.append_assoc, List.cons_append, parts]
      · exact List.mem_append_right _ List.mem_cons_self

instance : DecidablePred Extended := fun c => decidable_of_iff _ (extended_iff c).symm

theorem Extended.dot_mem (h : Extended c) : '.' ∈ c := by
  obtain ⟨front, back, rfl, -⟩ := h
  exact List.mem_append_right front List.mem_cons_self

theorem extended_append_cons (hdot : '.' ∉ after) :
    Extended (before ++ '.' :: after) ↔ ∃ x ∈ before, x ≠ '.' := by
  constructor
  · rintro ⟨front, back, heq, x, hx, hne⟩
    exact ⟨x, (Text.isPrefix_of_last hdot heq).subset hx, hne⟩
  · exact fun hsome => ⟨before, after, rfl, hsome⟩

theorem slash_notMem_cons (h : '/' ∉ after) : '/' ∉ '.' :: after :=
  List.not_mem_cons_of_ne_of_not_mem (by decide) h

theorem extended_base_iff (hdot : '.' ∉ after) (hslash : '/' ∉ after) :
    Extended (base (before ++ '.' :: after)) ↔ ∃ x ∈ base before, x ≠ '.' := by
  rw [base_append before (slash_notMem_cons hslash), extended_append_cons hdot]

/-- If the last component has an extension, the last dot of the path stands in it. -/
theorem exists_cut (h : Extended (base path)) : ∃ before after, path = before ++ '.' :: after ∧
    '.' ∉ after ∧ '/' ∉ after ∧ ∃ x ∈ base before, x ≠ '.' := by
  obtain ⟨before, after, rfl, hdot⟩ := Text.exists_last ((base_suffix path).subset h.dot_mem)
  have hslash : '/' ∉ after := by
    intro slash
    -- with a slash behind the last dot there is no dot in the last component
    obtain ⟨above, last, rfl, hlast⟩ := Text.exists_last slash
    rw [← List.cons_append, ← List.append_assoc, base_append_cons _ hlast] at h
    exact hdot (List.mem_append_right above (List.mem_cons_of_mem '/' h.dot_mem))
  exact ⟨before, after, rfl, hdot, hslash, (extended_base_iff hdot hslash).mp h⟩

/-! ## Stems of paths -/

theorem any_takeWhile_iff : (path.reverse.takeWhile (· != '/')).any (· != '.') = true ↔
    ∃ x ∈ base path, x ≠ '.' := by
  simp only [takeWhile_reverse, List.any_reverse, List.any_eq_true, bne_iff_ne]

theorem stem_append_cons (hdot : '.' ∉ after) (hslash : '/' ∉ after)
    (hsome : ∃ x ∈ base before, x ≠ '.') : stem (before ++ '.' :: after) = before := by
  rw [stem, Text.cutLast?_append_cons hdot]
  exact if_pos ⟨hslash, any_takeWhile_iff.mpr hsome⟩

theorem stem_of_not_extended (h : ¬Extended (base path)) : stem path = path := by
  by_cases dot : '.' ∈ path
  · obtain ⟨before, after, rfl, hdot⟩ := Text.exists_last dot
    rw [stem, Text.cutLast?_append_cons hdot]
    refine if_neg fun ⟨hslash, hsome⟩ => h ?_
    exact (extended_base_iff hdot hslash).mpr (any_takeWhile_iff.mp hsome)
  · rw [stem, Text.cutLast?_of_notMem dot]

/-- A path taken apart at its last dot if its last component has an extension, and otherwise left
whole. -/
structure Parted (path stem ext : List Char) : Prop where
  parts : path = stem ++ ext
  form : ext = [] ∨ ∃ name, ext = '.' :: name ∧ '.' ∉ name ∧ '/' ∉ name
  ne_nil_iff : ext ≠ [] ↔ Extended (base path)
  last : ext ≠ [] → ∀ front back, path = front ++ '.' :: back → front.length ≤ stem.length

theorem exists_parted (path : List Char) : ∃ ext, Parted path (stem path) ext := by
  by_cases h : Extended (base path)
  · obtain ⟨before, after, rfl, hdot, hslash, hsome⟩ := exists_cut h
    rw [stem_append_cons hdot hslash hsome]
    exact ⟨'.' :: after,
      { parts := rfl
        form := .inr ⟨after, rfl, hdot, hslash⟩
        ne_nil_iff := iff_of_true (List.cons_ne_nil _ _) h
        last := fun _ front back heq => (Text.isPrefix_of_last hdot heq).length_le }⟩
  · rw [stem_of_not_extended h]
    exact ⟨[],
      { parts := (List.append_nil path).symm
        form := .inl rfl
        ne_nil_iff := iff_of_false (not_not_intro rfl) h
        last := fun hne => absurd rfl hne }⟩

theorem Parted.slash (h : Parted path before ext) : '/' ∉ ext := by
  rcases h.form with rfl | ⟨name, rfl, -, hslash⟩
  · exact List.not_mem_nil
  · exact slash_notMem_cons hslash

/-- Of two ways to take a path apart, none ends its stem behind the other. -/
theorem Parted.length_le (h : Parted path before ext) (h' : Parted path before' ext') :
    before.length ≤ before'.length := by
  rcases h.form with rfl | ⟨name, rfl, -, -⟩
  · have hnil : ext' = [] := by
      by_contra hne
      exact h.ne_nil_iff.mpr (h'.ne_nil_iff.mp hne) rfl
    rw [← List.append_nil before, ← h.parts, h'.parts, hnil, List.append_nil]
  · have hne : ext' ≠ [] := h'.ne_nil_iff.mpr (h.ne_nil_iff.mp (List.cons_ne_nil _ _))
    exact h'.last hne before name h.parts

theorem Parted.unique (h : Parted path before ext) (h' : Parted path before' ext') :
    before = before' := by
  have lengths : before.length = before'.length := (h.length_le h').antisymm (h'.length_le h)
  exact (List.append_inj (h.parts.symm.trans h'.parts) lengths).1

example : Extended "a..b".toList ∧ Extended "..b.".toList ∧ ¬Extended "..b".toList := by decide

end Path

namespace ImportPath

variable {name stem₁ stem₂ ext₁ ext₂ : List Char}

/-- A file name taken apart into a stem, which lies in the directory of the file, and an extension,
which is `.d.ts` if the name ends so and otherwise follows the rule of the last dot. -/
structure Stripped (name stem ext : List Char) : Prop where
  parts : name = stem ++ ext
  declaration : ".d.ts".toList <:+ name → ext = ".d.ts".toList
  other : ¬".d.ts".toList <:+ name → Path.Parted name stem ext
  directory_eq : Path.directory stem = Path.directory name

theorem Stripped.unique (h : Stripped name stem₁ ext₁) (h' : Stripped name stem₂ ext₂) :
    stem₁ = stem₂ := by
  by_cases ends : ".d.ts".toList <:+ name
  · have parts := h.parts.symm.trans h'.parts
    rw [h.declaration ends, h'.declaration ends] at parts
    exact List.append_cancel_right parts
  · exact (h.other ends).unique (h'.other ends)

theorem exists_stripped (p : ImportPath) :
    ∃ ext, Stripped p.filename.toList p.stem.toList ext := by
  rw [stem, String.toList_ofList]
  generalize p.filename.toList = name
  by_cases ends : ".d.ts".toList <:+ name
  · obtain ⟨before, rfl⟩ := ends
    rw [Text.dropEnding?_append, Option.getD_some]
    exact ⟨".d.ts".toList,
      { parts := rfl
        declaration := fun _ => rfl
        other := fun none => absurd (List.suffix_append before _) none
        directory_eq := (Path.directory_append before (by decide)).symm }⟩
  · rw [Text.dropEnding?_of_not ends, Option.getD_none]
    obtain ⟨ext, h⟩ := Path.exists_parted name
    exact ⟨ext,
      { parts := h.parts
        declaration := fun declares => absurd declares ends
        other := fun _ => h
        directory_eq := by
          conv_rhs => rw [h.parts, Path.directory_append _ h.slash] }⟩

theorem directory_stem (p : ImportPath) : Path.directory p.stem.toList = p.directory := by
  obtain ⟨ext, h⟩ := p.exists_stripped
  exact h.directory_eq

/-- The stem of a module is its file name without the extension, and no other way to take the name
apart follows the rules.  Modules with one stem in common are in one directory. -/
theorem stem_stripped (p : ImportPath) :
    (∃ ext, Stripped p.filename.toList p.stem.toList ext) ∧
    (∀ stem ext, Stripped p.filename.toList stem ext → stem = p.stem.toList) ∧
    ∀ q : ImportPath, q.stem = p.stem → q.directory = p.directory := by
  obtain ⟨ext, h⟩ := p.exists_stripped
  refine ⟨⟨ext, h⟩, fun stem' ext' h' => h'.unique h, fun q same => ?_⟩
  rw [← q.directory_stem, ← p.directory_stem, same]

/-- A module with dots around its name, its declarations, and a hidden file next to them. -/
theorem stem_stripped_siblings :
    let p : ImportPath := ⟨"v1.2/..x.y.js", "", ""⟩
    let q : ImportPath := ⟨"v1.2/..x.y.d.ts", "", ""⟩
    let hidden : ImportPath := ⟨"v1.2/.x", "", ""⟩
    (∃ ext, Stripped p.filename.toList "v1.2/..x.y".toList ext) ∧
      (∀ ext, ¬Stripped p.filename.toList "v1.2/..x".toList ext) ∧
      q.directory = p.directory ∧
      ∃ ext, Stripped hidden.filename.toList hidden.filename.toList ext := by
  intro p q hidden
  have hp : p.stem = "v1.2/..x.y" := by decide +kernel
  have hq : q.stem = p.stem := by decide +kernel
  have hhidden : hidden.stem = hidden.filename := by decide +kernel
  obtain ⟨stripped, unique, together⟩ := stem_stripped p
  obtain ⟨whole, -, -⟩ := stem_stripped hidden
  rw [hp] at stripped unique
  rw [hhidden] at whole
  refine ⟨stripped, fun ext early => ?_, together q hq, whole⟩
  exact absurd (unique _ ext early) (by decide)

end ImportPath

end Protolink
