import Mathlib.Data.List.Induction
import Protolink.Buffer

/-!
# The content of a buffer

What the text of a file is, in terms of the steps that were done with its buffer and without a look
at the buffer in between.  `Tracks` says of every part of a buffer which steps it comes from.  One
more step keeps it, by `Tracks.snoc`, and so does a run, by `Tracks.run`; the text is then read off.
-/

namespace Protolink.Buffer

/-! ## What steps are for -/

def Piece.ident? : Piece → Option Ident
  | .text _ => none
  | .ident i => some i

/-- A piece as it stands in the module `home`: an identifier of another module is written with the
alias of that module. -/
def Piece.textIn (home : ImportPath) : Piece → String
  | .text s => s
  | .ident i => if i.path = home then i.name else home.aliasFor i.path ++ "." ++ i.name

/-- A line of pieces at some indentation; an empty one is not indented. -/
def entry (home : ImportPath) (level : Nat) (pieces : List Piece) : String :=
  let text := String.join (pieces.map (Piece.textIn home))
  if text = "" then "" else String.ofList (List.replicate level ' ') ++ text

namespace Step

/-- The line that a step writes at some indentation, if it writes one. -/
def entries (home : ImportPath) (level : Nat) : Step → List String
  | .line pieces => [entry home level pieces]
  | _ => []

/-- The identifiers that a step mentions. -/
def idents : Step → List Ident
  | .line pieces => pieces.filterMap Piece.ident?
  | .spell i => [i]
  | _ => []

/-- Whether a step marks the place of the import statements. -/
def isMark : Step → Bool
  | .markImports => true
  | _ => false

/-- The indentation that a step sets.  A negative one is refused. -/
def level? : Step → Option Nat
  | .setIndent level => if level < 0 then none else some level.toNat
  | _ => none

/-- What a step says is to be done to the text at the end. -/
def finish? : Step → Option (String → String)
  | .finish f => some f
  | _ => none

end Step

/-- The indentation in force after some steps, if it is `level` before them. -/
def levelAfter (level : Nat) (steps : List Step) : Nat :=
  (steps.filterMap Step.level?).getLast?.getD level

/-- The lines that steps write, the first of them at the indentation `level`. -/
def written (home : ImportPath) (level : Nat) : List Step → List String
  | [] => []
  | step :: steps => step.entries home level ++ written home (levelAfter level [step]) steps

/-- The modules other than `home` that identifiers are of. -/
def foreign (home : ImportPath) (is : List Ident) : List ImportPath :=
  (is.map (·.path)).filter (· ≠ home)

/-- The foreign modules that steps mention, each once, in the order of their first mention. -/
def mentioned (home : ImportPath) (steps : List Step) : List ImportPath :=
  (foreign home (steps.flatMap Step.idents)).eraseDups

/-- The steps before the last mark, if there is one. -/
def beforeMark? (steps : List Step) : Option (List Step) :=
  match steps.reverse.dropWhile (!·.isMark) with
  | [] => none
  | _ :: before => some before.reverse

/-- What is done to the text in the end: what was said last. -/
def finisher (steps : List Step) : String → String :=
  (steps.filterMap Step.finish?).getLast?.getD id

/-! ## One step more -/

variable {home : ImportPath} {level : Nat} {xs ys : List Step} {step : Step} {b : Buffer}

theorem levelAfter_append (level : Nat) (xs ys : List Step) :
    levelAfter level (xs ++ ys) = levelAfter (levelAfter level xs) ys := by
  rw [levelAfter, List.filterMap_append, List.getLast?_append, Option.getD_or]
  rfl

theorem written_append (level : Nat) (xs ys : List Step) : written home level (xs ++ ys) =
    written home level xs ++ written home (levelAfter level xs) ys := by
  induction xs generalizing level with
  | nil => rfl
  | cons x xs ih =>
    have next : levelAfter level (x :: xs) = levelAfter (levelAfter level [x]) xs :=
      levelAfter_append level [x] xs
    rw [List.cons_append, written, written, ih, next, List.append_assoc]

theorem written_singleton (level : Nat) (step : Step) :
    written home level [step] = step.entries home level := List.append_nil _

theorem finisher_snoc (xs : List Step) (step : Step) :
    finisher (xs ++ [step]) = step.finish?.getD (finisher xs) := by
  rw [finisher, List.filterMap_append, List.getLast?_append, Option.getD_or]
  cases step <;> rfl

theorem beforeMark?_snoc (xs : List Step) (step : Step) :
    beforeMark? (xs ++ [step]) = if step.isMark then some xs else beforeMark? xs := by
  rw [beforeMark?, List.reverse_append, List.reverse_singleton, List.singleton_append,
    List.dropWhile_cons]
  cases step.isMark with
  | true => simp
  | false => rfl

theorem beforeMark?_unmarked (h : ∀ step ∈ ys, step.isMark = false) :
    beforeMark? (xs ++ ys) = beforeMark? xs := by
  induction ys using List.reverseRecOn with
  | nil => rw [List.append_nil]
  | append_singleton ys step ih =>
    obtain ⟨hys, hstep⟩ := List.forall_mem_append.mp h
    rw [← List.append_assoc, beforeMark?_snoc, hstep step List.mem_cons_self, ih hys]
    rfl

theorem beforeMark?_eq_none_iff :
    beforeMark? xs = none ↔ ∀ step ∈ xs, step.isMark = false := by
  induction xs using List.reverseRecOn with
  | nil => simp [beforeMark?]
  | append_singleton xs step ih =>
    rw [beforeMark?_snoc, List.forall_mem_append]
    cases h : step.isMark with
    | true => simp [h]
    | false => simpa [h] using ih

theorem isPrefix_of_beforeMark? (h : beforeMark? xs = some ys) : ys <+: xs := by
  induction xs using List.reverseRecOn with
  | nil => simp [beforeMark?] at h
  | append_singleton xs step ih =>
    rw [beforeMark?_snoc] at h
    cases hm : step.isMark with
    | true =>
      obtain rfl : xs = ys := by simpa [hm] using h
      exact List.prefix_append xs [step]
    | false => exact (ih (by simpa [hm] using h)).trans (List.prefix_append xs [step])

theorem foreign_append (home : ImportPath) (is js : List Ident) :
    foreign home (is ++ js) = foreign home is ++ foreign home js := by
  rw [foreign, List.map_append, List.filter_append]
  rfl

theorem eraseDups_snoc (ps : List ImportPath) (p : ImportPath) :
    (ps ++ [p]).eraseDups = if p ∈ ps then ps.eraseDups else ps.eraseDups ++ [p] := by
  by_cases h : p ∈ ps <;> simp [List.eraseDups_append, List.removeAll, h, List.eraseDups_cons]

/-- A buffer that has noted some identifiers notes one more. -/
theorem mention_eq {is : List Ident} (hb : b.imports = (foreign b.home is).eraseDups) (i : Ident) :
    b.mention i = { b with imports := (foreign b.home (is ++ [i])).eraseDups } := by
  rw [foreign_append]
  by_cases hi : i.path = b.home
  · have none : foreign b.home [i] = [] := by simp [foreign, hi]
    rw [none, List.append_nil, ← hb, mention, if_pos (.inl hi)]
  · have one : foreign b.home [i] = [i.path] := by simp [foreign, hi]
    rw [one, eraseDups_snoc, ← hb, mention]
    by_cases hm : i.path ∈ foreign b.home is
    · rw [if_pos hm, if_pos (.inr (hb ▸ List.mem_eraseDups.mpr hm))]
    · have hne : i.path ∉ b.imports := fun h => hm (List.mem_eraseDups.mp (hb ▸ h))
      rw [if_neg hm, if_neg (not_or.mpr ⟨hi, hne⟩)]

theorem mentionPieces_eq {is : List Ident} (hb : b.imports = (foreign b.home is).eraseDups)
    (pieces : List Piece) : pieces.foldl mentionPiece b =
      { b with imports := (foreign b.home (is ++ pieces.filterMap Piece.ident?)).eraseDups } := by
  induction pieces generalizing is b with
  | nil =>
    rw [List.filterMap_nil, List.append_nil, ← hb]
    rfl
  | cons piece pieces ih =>
    cases piece with
    | text s => exact ih hb
    | ident i =>
      rw [List.foldl_cons, mentionPiece, mention_eq hb, ih rfl, List.append_assoc]
      rfl

theorem line_eq {is : List Ident} (hb : b.imports = (foreign b.home is).eraseDups)
    (pieces : List Piece) : b.line pieces =
      { b with
        lines := b.lines ++ [entry b.home b.indent pieces]
        imports := (foreign b.home (is ++ pieces.filterMap Piece.ident?)).eraseDups } := by
  have text : b.pieceText = Piece.textIn b.home := by
    funext piece
    cases piece <;> rfl
  rw [line, mentionPieces_eq hb, text, entry]
  by_cases h : String.join (pieces.map (Piece.textIn b.home)) = "" <;>
    simp only [h, if_true, if_false]

section Runs

variable [WorkingDirectory]

/-- What one step makes of a buffer that has noted some identifiers. -/
theorem run_singleton {is : List Ident} (hb : b.imports = (foreign b.home is).eraseDups)
    (step : Step) : (b.run [step]).2 =
      { b with
        lines := b.lines ++ step.entries b.home b.indent
        imports := (foreign b.home (is ++ step.idents)).eraseDups
        mark := if step.isMark then some b.lines.length else b.mark
        indent := levelAfter b.indent [step]
        finish := step.finish?.getD b.finish } := by
  cases step with
  | line pieces => exact line_eq hb pieces
  | spell i =>
    refine (mention_eq hb i).trans ?_
    simp only [Step.entries, List.append_nil]
    rfl
  | setIndent level =>
    by_cases hl : level < 0 <;>
      simp [run, perform, setIndent, hl, Step.entries, Step.idents, ← hb, Step.isMark,
        levelAfter, Step.level?, Step.finish?, bind, Except.bind, pure, Except.pure]
  | _ =>
    simp [run, perform, markImports, Step.entries, Step.idents, ← hb, Step.isMark, levelAfter,
      Step.level?, Step.finish?]

/-! ## Runs -/

/-- Of two runs of a buffer, the second goes on where the first leaves off. -/
theorem run_append (b : Buffer) (xs ys : List Step) :
    (b.run (xs ++ ys)).2 = ((b.run xs).2.run ys).2 := by
  induction xs generalizing b with
  | nil => rfl
  | cons x xs ih =>
    cases h : b.perform x with
    | error e => simp only [List.cons_append, run, h, ih]
    | ok r => simp only [List.cons_append, run, h, ih]

/-- Every part of a buffer is what the steps so far make of it. -/
structure Tracks (module : ImportPath) (steps : List Step) (b : Buffer) : Prop where
  home : b.home = module
  lines : b.lines = written module 0 steps
  imports : b.imports = mentioned module steps
  mark : b.mark = (beforeMark? steps).map fun before => (written module 0 before).length
  indent : b.indent = levelAfter 0 steps
  finish : b.finish = finisher steps

omit [WorkingDirectory] in
theorem Tracks.nil (name : String) (home : ImportPath) : Tracks home [] { name, home } where
  home := rfl
  lines := rfl
  imports := by simp [mentioned, foreign]
  mark := rfl
  indent := rfl
  finish := rfl

theorem Tracks.snoc (h : Tracks home xs b) (step : Step) :
    Tracks home (xs ++ [step]) (b.run [step]).2 := by
  obtain ⟨rfl, lines, imports, mark, indent, finish⟩ := h
  rw [run_singleton imports step]
  constructor
  · rfl
  · rw [written_append, written_singleton, lines, indent]
  · rw [mentioned, List.flatMap_append, List.flatMap_singleton]
  · rw [beforeMark?_snoc, apply_ite (Option.map _), Option.map_some, mark, lines]
  · rw [levelAfter_append, indent]
  · rw [finisher_snoc, finish]

/-- Steps are tracked one after the other. -/
theorem Tracks.run (h : Tracks home xs b) (ys : List Step) :
    Tracks home (xs ++ ys) (b.run ys).2 := by
  induction ys using List.reverseRecOn with
  | nil => rwa [List.append_nil]
  | append_singleton ys y ih =>
    rw [← List.append_assoc, run_append]
    exact ih.snoc y

/-! ## Texts -/

/-- The three parts of the text that steps leave.  The lines are those that the steps write, in
order; the import statements come after what was written before the last mark, one for each foreign
module that any step mentions, and without a mark there are none. -/
structure Layout (home : ImportPath) (steps : List Step) (above imports below : List String) :
    Prop where
  lines : above ++ below = written home 0 steps
  unmarked : (∀ step ∈ steps, step.isMark = false) → imports = []
  marked : ∀ before after, steps = before ++ .markImports :: after →
    (∀ step ∈ after, step.isMark = false) →
      above = written home 0 before ∧ imports = (mentioned home steps).map home.statement
  /-- With a mark, the alias of every foreign module that is written anywhere is imported. -/
  bound : (∃ step ∈ steps, step.isMark = true) → ∀ step ∈ steps, ∀ i ∈ step.idents,
    i.path ≠ home → home.statement i.path ∈ imports

theorem layout_of_beforeMark? {steps : List Step} (h : beforeMark? steps = none) :
    Layout home steps (written home 0 steps) [] [] := by
  have none_marked := beforeMark?_eq_none_iff.mp h
  constructor
  · exact List.append_nil _
  · intro _
    rfl
  · rintro before after rfl _
    exact absurd (none_marked .markImports (by simp)) nofun
  · rintro ⟨step, hstep, hmark⟩
    rw [none_marked step hstep] at hmark
    cases hmark

theorem layout_of_beforeMark?_some {steps before : List Step} (h : beforeMark? steps = some before)
    {lines : List String} (hlines : lines = written home 0 steps) :
    Layout home steps (lines.take (written home 0 before).length)
      ((mentioned home steps).map home.statement)
      (lines.drop (written home 0 before).length) := by
  have above : lines.take (written home 0 before).length = written home 0 before := by
    obtain ⟨after, rfl⟩ := isPrefix_of_beforeMark? h
    rw [hlines, written_append, List.take_left]
  constructor
  · rw [List.take_append_drop, hlines]
  · intro hmark
    rw [beforeMark?_eq_none_iff.mpr hmark] at h
    cases h
  · intro before' after hsteps hafter
    have last : beforeMark? steps = some before' := by
      rw [hsteps, ← List.singleton_append, ← List.append_assoc, beforeMark?_unmarked hafter,
        beforeMark?_snoc]
      rfl
    obtain rfl : before = before' := Option.some.inj (h.symm.trans last)
    exact ⟨above, rfl⟩
  · intro _ step hstep i hi hne
    have mem : i.path ∈ foreign home (steps.flatMap Step.idents) := by
      refine List.mem_filter.mpr ⟨?_, by simpa using hne⟩
      exact List.mem_map_of_mem (List.mem_flatMap.mpr ⟨step, hstep, hi⟩)
    exact List.mem_map_of_mem (List.mem_eraseDups.mpr mem)

/-- After any steps the text of a file is what was said last to be done to it, applied to its lines
with the import statements at the last mark.  Whatever the steps, the lines and the statements are
those of the layout: a line depends on the indentation when it was written, and the statements on
all steps, also on those after the mark. -/
theorem content_run (name : String) (home : ImportPath) (steps : List Step) :
    ∃ above imports below, Layout home steps above imports below ∧
      (({ name, home } : Buffer).run steps).2.content =
        finisher steps ("\n".intercalate (above ++ imports ++ below)) := by
  obtain ⟨hhome, hlines, himports, hmark, -, hfinish⟩ := (Tracks.nil name home).run steps
  rw [List.nil_append] at hlines himports hmark hfinish
  rw [content, finalLines, hfinish, hmark]
  cases h : beforeMark? steps with
  | none =>
    refine ⟨_, _, _, layout_of_beforeMark? h, ?_⟩
    simp [hlines]
  | some before =>
    refine ⟨_, _, _, layout_of_beforeMark?_some h hlines, ?_⟩
    rw [Option.map_some, statements, hhome, himports]

end Runs

/-- A module that is mentioned after the mark is imported at the mark, and the blank line is not
indented. -/
example : letI : WorkingDirectory := .ofPath ['/']
    (({ name := "a.ts", home := ⟨"a.ts", "", ""⟩ } : Buffer).run [
    .line [.text "// head"], .markImports, .setIndent 2, .line [],
    .line [.ident ((ImportPath.external "pkg").ident "A"), .text ";"]]).2.content =
    "// head\nimport * as pkg from \"pkg\";\n\n  pkg.A;" := by
  decide +kernel

end Protolink.Buffer
