import Mathlib.Data.List.Forall2
import Mathlib.Data.List.Nodup
import Protolink.Proofs.Content

/-!
# When two modules share an alias

Foreign modules are told apart by their import paths, and the import statements of a file are one
for each.  Aliases are made from parts of these paths by a rewriting that loses something, so two
statements may bind the same alias: `Buffer.shared_alias` gives two such modules.  What exactly is
lost is said by `ImportPath.label`, the text that an alias is made from, and by `LookAlike`: the
aliases of two modules are the same exactly if their labels look alike.  Where no labels do, an
alias followed by a name denotes one identifier of one module.

Main statement: `Buffer.aliases_run`.
-/

namespace Protolink

/-! ## Characters and texts -/

/-- Characters that an alias does not tell apart. -/
def LookAlike (c d : Char) : Prop :=
  c = d ∨ (c ∈ ['/', '.', '-', '@', '_'] ∧ d ∈ ['/', '.', '-', '@', '_'])

/-- Texts that look alike from the first to the last character. -/
def TextsLookAlike (s t : String) : Prop := List.Forall₂ LookAlike s.toList t.toList

theorem lookAlike_iff (c d : Char) : LookAlike c d ↔
    (if c ∈ ['/', '.', '-', '@'] then '_' else c) =
      if d ∈ ['/', '.', '-', '@'] then '_' else d := by
  have safe (c : Char) : (if c ∈ ['/', '.', '-', '@'] then '_' else c) =
      if c ∈ ['/', '.', '-', '@', '_'] then '_' else c := by
    by_cases h : c = '_'
    · subst h
      decide
    · simp only [List.mem_cons, h, false_or]
  have bar : '_' ∈ ['/', '.', '-', '@', '_'] := by decide
  rw [safe, safe, LookAlike]
  by_cases hc : c ∈ ['/', '.', '-', '@', '_'] <;> by_cases hd : d ∈ ['/', '.', '-', '@', '_']
  · simp only [hc, hd, and_self, or_true, if_true]
  · rw [if_pos hc, if_neg hd]
    constructor
    · rintro (rfl | ⟨-, hd'⟩)
      · exact absurd hc hd
      · exact absurd hd' hd
    · rintro rfl
      exact absurd bar hd
  · rw [if_neg hc, if_pos hd]
    constructor
    · rintro (rfl | ⟨hc', -⟩)
      · exact absurd hd hc
      · exact absurd hc' hc
    · rintro rfl
      exact absurd bar hc
  · rw [if_neg hc, if_neg hd]
    constructor
    · rintro (h | ⟨hc', -⟩)
      · exact h
      · exact absurd hc' hc
    · exact .inl

theorem aliasSafe_eq_iff (s t : String) : aliasSafe s = aliasSafe t ↔ TextsLookAlike s t := by
  rw [aliasSafe, aliasSafe, String.ofList_inj, ← List.forall₂_eq_eq_eq, List.forall₂_map_left_iff,
    List.forall₂_map_right_iff, TextsLookAlike]
  constructor
  · intro h
    exact h.imp fun c d hcd => (lookAlike_iff c d).mpr hcd
  · intro h
    exact h.imp fun c d hcd => (lookAlike_iff c d).mp hcd

theorem aliasSafe_append (s t : String) : aliasSafe (s ++ t) = aliasSafe s ++ aliasSafe t := by
  simp only [aliasSafe, String.toList_append, List.map_append, String.ofList_append]

/-- An alias has no dots. -/
theorem dot_notMem_aliasSafe (s : String) : '.' ∉ (aliasSafe s).toList := by
  rw [aliasSafe, String.toList_ofList, List.mem_map]
  rintro ⟨c, -, hc⟩
  split at hc
  · exact absurd hc (by decide)
  · next h =>
    subst hc
    exact h (by decide)

/-- What is split at the first occurrence of a separator is split in one way. -/
theorem append_cons_inj_of_notMem {α : Type} {a : α} {xs ys as bs : List α} (hx : a ∉ xs)
    (hy : a ∉ ys) : xs ++ a :: as = ys ++ a :: bs ↔ xs = ys ∧ as = bs := by
  constructor
  · intro h
    induction xs generalizing ys with
    | nil =>
      cases ys with
      | nil => exact ⟨rfl, (List.cons.inj h).2⟩
      | cons y ys => exact absurd ((List.cons.inj h).1 ▸ List.mem_cons_self) hy
    | cons x xs ih =>
      cases ys with
      | nil => exact absurd ((List.cons.inj h).1 ▸ List.mem_cons_self) hx
      | cons y ys =>
        obtain ⟨rfl, rest⟩ := List.cons.inj h
        obtain ⟨rfl, hs⟩ := ih (fun h => hx (List.mem_cons_of_mem _ h))
          (fun h => hy (List.mem_cons_of_mem _ h)) rest
        exact ⟨rfl, hs⟩
  · rintro ⟨rfl, rfl⟩
    rfl

namespace ImportPath

variable (home : ImportPath)

/-- The text that the alias of a module is made from. -/
def label (foreign : ImportPath) : String :=
  if home.reaches foreign then "_" ++ foreign.stem
  else if foreign.pathUnderPackage = "" then foreign.package
  else foreign.package ++ "__" ++ foreign.pathUnderPackage

theorem aliasFor_eq (foreign : ImportPath) :
    home.aliasFor foreign = aliasSafe (home.label foreign) := by
  have one : aliasSafe "_" = "_" := by decide
  have two : aliasSafe "__" = "__" := by decide
  unfold aliasFor label
  split
  · rw [aliasSafe_append, one]
  · split
    · rfl
    · rw [aliasSafe_append, aliasSafe_append, two]

/-- Two modules have the same alias exactly if what their aliases are made from looks alike. -/
theorem aliasFor_eq_iff (f g : ImportPath) :
    home.aliasFor f = home.aliasFor g ↔ TextsLookAlike (home.label f) (home.label g) := by
  rw [aliasFor_eq, aliasFor_eq, aliasSafe_eq_iff]

/-- An alias and a name are told apart by the first dot. -/
theorem qualified_eq_iff (f g : ImportPath) (m n : String) :
    home.aliasFor f ++ "." ++ m = home.aliasFor g ++ "." ++ n ↔
      TextsLookAlike (home.label f) (home.label g) ∧ m = n := by
  have dot : ".".toList = ['.'] := rfl
  have hf : '.' ∉ (home.aliasFor f).toList := home.aliasFor_eq f ▸ dot_notMem_aliasSafe _
  have hg : '.' ∉ (home.aliasFor g).toList := home.aliasFor_eq g ▸ dot_notMem_aliasSafe _
  rw [← String.toList_inj]
  simp only [String.toList_append, dot, List.append_assoc, List.singleton_append]
  rw [append_cons_inj_of_notMem hf hg, String.toList_inj, String.toList_inj, aliasFor_eq_iff]

end ImportPath

namespace Buffer

theorem nodup_eraseDups (ps : List ImportPath) : ps.eraseDups.Nodup := by
  induction ps using List.reverseRecOn with
  | nil => exact List.nodup_nil
  | append_singleton ps p ih =>
    rw [eraseDups_snoc]
    split
    · exact ih
    · next h =>
      rw [← List.concat_eq_append]
      exact ih.concat fun hp => h (List.mem_eraseDups.mp hp)

theorem ne_home_of_mem_mentioned {home p : ImportPath} {steps : List Step}
    (h : p ∈ mentioned home steps) : p ≠ home := by
  have mem := List.mem_eraseDups.mp h
  exact of_decide_eq_true (List.mem_filter.mp mem).2

/-- Two files next to each other whose names differ in one character are imported under one alias,
and their declarations of the same name are written alike. -/
theorem shared_alias :
    letI : WorkingDirectory := .ofPath ['/']
    let home : ImportPath := ⟨"x.ts", "", ""⟩
    let b := (({ name := "x.ts", home } : Buffer).run [.markImports,
      .line [.ident ⟨⟨"a-b.ts", "", ""⟩, "T"⟩], .line [.ident ⟨⟨"a_b.ts", "", ""⟩, "T"⟩]]).2
    b.imports = [⟨"a-b.ts", "", ""⟩, ⟨"a_b.ts", "", ""⟩] ∧
    ¬(b.imports.map home.aliasFor).Nodup ∧
    b.content = "import * as _a_b from \"./a-b\";\nimport * as _a_b from \"./a_b\";\n_a_b.T\n_a_b.T"
    := by
  decide +kernel

/-- After any steps there is one import statement for each foreign module that was mentioned.  The
aliases in the statements are different exactly if no two of the modules have labels that look
alike; two modules have the same alias exactly if theirs do, and otherwise what is written for an
identifier is written for no other one. -/
theorem aliases_run [WorkingDirectory] (name : String) (home : ImportPath) (steps : List Step) :
    let b := (({ name, home } : Buffer).run steps).2
    let modules := mentioned home steps
    (b.statements = modules.map home.statement ∧ modules.Nodup) ∧
    ((modules.map home.aliasFor).Nodup ↔
      modules.Pairwise fun f g => ¬TextsLookAlike (home.label f) (home.label g)) ∧
    (∀ f ∈ modules, ∀ g ∈ modules,
      (home.aliasFor f = home.aliasFor g ↔ TextsLookAlike (home.label f) (home.label g))) ∧
    ∀ i j : Ident, i.path ∈ modules → j.path ∈ modules →
      (b.spelling i = b.spelling j ↔
        TextsLookAlike (home.label i.path) (home.label j.path) ∧ i.name = j.name) := by
  obtain ⟨hhome, -, himports, -, -, -⟩ := (Tracks.nil name home).run steps
  rw [List.nil_append] at himports
  intro b modules
  refine ⟨⟨?_, nodup_eraseDups _⟩, ?_, ?_, ?_⟩
  · rw [statements, himports, hhome]
  · rw [List.Nodup, List.pairwise_map]
    simp only [ne_eq, ImportPath.aliasFor_eq_iff]
  · intro f _ g _
    exact home.aliasFor_eq_iff f g
  · intro i j hi hj
    rw [spelling, spelling, hhome, if_neg (ne_home_of_mem_mentioned hi),
      if_neg (ne_home_of_mem_mentioned hj)]
    exact home.qualified_eq_iff i.path j.path i.name j.name

/-- A file and a package with the same alias, and another package. -/
theorem aliases_run_file_and_packages :
    letI : WorkingDirectory := .ofPath ['/']
    let home : ImportPath := ⟨"x.ts", "", ""⟩
    let i : Ident := ⟨⟨"a-b.ts", "", ""⟩, "T"⟩
    let j : Ident := ⟨.external "@a/b", "T"⟩
    let k : Ident := ⟨.external "a" "b", "T"⟩
    let steps : List Step := [.line [.ident i, .ident j], .spell k]
    let b := (({ name := "x.ts", home } : Buffer).run steps).2
    (i.path ∈ mentioned home steps ∧ j.path ∈ mentioned home steps ∧
      k.path ∈ mentioned home steps) ∧
    b.spelling i = b.spelling j ∧ b.spelling i ≠ b.spelling k := by
  let : WorkingDirectory := .ofPath ['/']
  intro home i j k steps b
  have written := (aliases_run "x.ts" home steps).2.2.2
  have hi : i.path ∈ mentioned home steps := by decide +kernel
  have hj : j.path ∈ mentioned home steps := by decide +kernel
  have hk : k.path ∈ mentioned home steps := by decide +kernel
  have alike : TextsLookAlike (home.label i.path) (home.label j.path) :=
    (aliasSafe_eq_iff _ _).mp (by decide +kernel)
  refine ⟨⟨hi, hj, hk⟩, (written i j hi hj).mpr ⟨alike, rfl⟩, fun same => ?_⟩
  have other := (aliasSafe_eq_iff _ _).mpr ((written i k hi hk).mp same).1
  exact absurd other (by decide +kernel)

end Buffer

end Protolink
