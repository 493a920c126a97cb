import Mathlib
import Protolink.Proofs.Aliases
import Protolink.Proofs.Outline

/-!
# Blocks are told apart by a column

Different outlines are printed as different lists of lines.  The reason is the column in which a
block begins: its first line has a dash there and its other lines have a blank, however deep they
are, and what comes after the last block of a list has neither.  So a list of blocks is cut in one
way, by `flatMap_append_inj`, and what is printed of an outline determines the outline, level by
level, by `Outline.lines_inj`.  This holds for any names: no name is looked at to find a block.
-/

namespace Protolink

theorem FieldKind.name_inj {k k' : FieldKind} : k.name = k'.name ↔ k = k' := by
  have mem (k : FieldKind) : k ∈ FieldKind.all := by cases k <;> decide
  have nodup : (FieldKind.all.map FieldKind.name).Nodup := by decide
  exact ⟨fun h => List.inj_on_of_nodup_map nodup (mem k) (mem k') h, congrArg _⟩

theorem Cardinality.name_inj {c c' : Cardinality} : c.name = c'.name ↔ c = c' := by
  cases c <;> cases c' <;> decide

namespace Listing

/-! ## Columns -/

/-- The character of a line in a column, if the line is so long. -/
def column (i : Nat) (line : String) : Option Char := line.toList[i]?

/-- Whether a line has blanks in all columns before one. -/
def Below (i : Nat) (line : String) : Prop := ∀ j < i, column j line = some ' '

theorem column_append {i : Nat} {s : String} {c : Char} (h : column i s = some c) (t : String) :
    column i (s ++ t) = some c := by
  have short : i < s.toList.length := (List.getElem?_eq_some_iff.mp h).1
  rw [column, String.toList_append, List.getElem?_append_left short]
  exact h

theorem toList_indented (level : Nat) (s : String) :
    (indented level s).toList = List.replicate level ' ' ++ s.toList := by
  rw [indented, String.toList_append, String.toList_ofList]

theorem column_indented (level i : Nat) (s : String) :
    column (level + i) (indented level s) = column i s := by
  rw [column, toList_indented, List.getElem?_append_right (by simp), List.length_replicate,
    Nat.add_sub_cancel_left]
  rfl

theorem below_indented (level : Nat) (s : String) : Below level (indented level s) := by
  intro j hj
  rw [column, toList_indented, List.getElem?_append_left (by simpa using hj),
    List.getElem?_replicate, if_pos hj]

theorem Below.mono {i j : Nat} {line : String} (h : Below j line) (hij : i ≤ j) : Below i line :=
  fun k hk => h k (lt_of_lt_of_le hk hij)

/-- A line that begins with a blank goes one column beyond its indentation. -/
theorem below_succ_indented {level : Nat} {s : String} (h : column 0 s = some ' ') :
    Below (level + 1) (indented level s) := by
  intro j hj
  rcases Nat.lt_succ_iff_lt_or_eq.mp hj with hj | rfl
  · exact below_indented level s j hj
  · rw [← h]
    exact column_indented j 0 s

@[simp] theorem indented_inj {level : Nat} {s t : String} :
    indented level s = indented level t ↔ s = t := String.append_right_inj _

/-! ## Blocks -/

/-- The lines of a block at an indentation: one with a dash, and others that are deeper. -/
def IsBlock (level : Nat) (ls : List String) : Prop :=
  ∃ head rest, ls = head :: rest ∧ Below level head ∧ column level head = some '-' ∧
    ∀ l ∈ rest, Below (level + 1) l

/-- Whether lines that follow a list of blocks at an indentation cannot belong to it. -/
def Ends (level : Nat) (ls : List String) : Prop :=
  ∀ l ∈ ls.head?, column level l ≠ some '-' ∧ column level l ≠ some ' '

/-- A block begins with a name. -/
theorem IsBlock.of_name {level : Nat} (name : String) {rest : List String}
    (h : ∀ l ∈ rest, Below (level + 1) l) :
    IsBlock level (indented level ("- name: " ++ name) :: rest) :=
  ⟨_, rest, rfl, below_indented level _,
    (column_indented level 0 _).trans (column_append rfl name), h⟩

/-- The lines of a block lie beyond any smaller indentation. -/
theorem IsBlock.below {i level : Nat} {ls : List String} (h : IsBlock level ls) (hi : i ≤ level) :
    ∀ l ∈ ls, Below i l := by
  obtain ⟨head, rest, rfl, hhead, -, hrest⟩ := h
  rw [List.forall_mem_cons]
  exact ⟨hhead.mono hi, fun l hl => (hrest l hl).mono (by omega)⟩

theorem ends_nil (level : Nat) : Ends level [] := by simp [Ends]

theorem ends_cons {level : Nat} {l : String} {ls : List String}
    (h : column level l ≠ some '-' ∧ column level l ≠ some ' ') : Ends level (l :: ls) := by
  simpa [Ends] using h

/-- Two lists that go on, each from the first element without a property, are cut in one way. -/
theorem append_inj_of_head? {α : Type} {P : α → Prop} {xs ys as bs : List α}
    (hx : ∀ a ∈ xs, P a) (hy : ∀ a ∈ ys, P a) (ha : ∀ a ∈ as.head?, ¬P a)
    (hb : ∀ b ∈ bs.head?, ¬P b) (h : xs ++ as = ys ++ bs) : xs = ys ∧ as = bs := by
  induction xs generalizing ys with
  | nil =>
    cases ys with
    | nil => exact ⟨rfl, h⟩
    | cons y ys =>
      obtain rfl : as = y :: (ys ++ bs) := h
      exact absurd (hy y List.mem_cons_self) (ha y rfl)
  | cons x xs ih =>
    cases ys with
    | nil =>
      obtain rfl : x :: (xs ++ as) = bs := h
      exact absurd (hx x List.mem_cons_self) (hb x rfl)
    | cons y ys =>
      obtain ⟨rfl, rest⟩ := List.cons.inj h
      obtain ⟨rfl, hs⟩ := ih (fun a m => hx a (List.mem_cons_of_mem _ m))
        (fun a m => hy a (List.mem_cons_of_mem _ m)) rest
      exact ⟨rfl, hs⟩

section Blocks

variable {α : Type} {level : Nat} {print : α → List String}

/-- A list of blocks begins with a dash. -/
theorem exists_dash (block : ∀ a, IsBlock level (print a)) (a : α) (as : List α)
    (ls : List String) :
    ∃ l ∈ ((a :: as).flatMap print ++ ls).head?, column level l = some '-' := by
  obtain ⟨head, rest, lines, -, dash, -⟩ := block a
  rw [List.flatMap_cons, lines]
  exact ⟨head, rfl, dash⟩

/-- The first line after a block in a list of blocks is not deeper than the list. -/
theorem not_below_of_head? (block : ∀ a, IsBlock level (print a)) (as : List α) {ls : List String}
    (h : Ends level ls) : ∀ l ∈ (as.flatMap print ++ ls).head?, ¬Below (level + 1) l := by
  intro l hl deep
  have blank := deep level (Nat.lt_succ_self level)
  cases as with
  | nil => exact (h l hl).2 blank
  | cons a as =>
    obtain ⟨head, hhead, dash⟩ := exists_dash block a as ls
    obtain rfl := Option.mem_unique hhead hl
    exact absurd (dash.symm.trans blank) (by decide)

/-- A list of blocks, followed by what cannot belong to it, is cut in one way. -/
theorem flatMap_append_inj (block : ∀ a, IsBlock level (print a)) {as bs : List α}
    (inj : ∀ a ∈ as, ∀ b, print a = print b → a = b) {ls ls' : List String} (hs : Ends level ls)
    (hs' : Ends level ls') (h : as.flatMap print ++ ls = bs.flatMap print ++ ls') :
    as = bs ∧ ls = ls' := by
  induction as generalizing bs with
  | nil =>
    cases bs with
    | nil => exact ⟨rfl, h⟩
    | cons b bs =>
      obtain ⟨l, hl, dash⟩ := exists_dash block b bs ls'
      rw [← h] at hl
      exact absurd dash (hs l hl).1
  | cons a as ih =>
    cases bs with
    | nil =>
      obtain ⟨l, hl, dash⟩ := exists_dash block a as ls
      rw [h] at hl
      exact absurd dash (hs' l hl).1
    | cons b bs =>
      obtain ⟨x, xs, hxs, -, -, deep⟩ := block a
      obtain ⟨y, ys, hys, -, -, deep'⟩ := block b
      rw [List.flatMap_cons, List.flatMap_cons, hxs, hys, List.append_assoc, List.append_assoc]
        at h
      obtain ⟨rfl, tail⟩ := List.cons.inj h
      obtain ⟨rfl, rest⟩ := append_inj_of_head? deep deep' (not_below_of_head? block as hs)
        (not_below_of_head? block bs hs') tail
      obtain rfl := inj a List.mem_cons_self b (hxs.trans hys.symm)
      obtain ⟨rfl, ends⟩ := ih (fun a' m => inj a' (List.mem_cons_of_mem _ m)) rest
      exact ⟨rfl, ends⟩

/-- A list of blocks that stands alone is cut in one way. -/
theorem flatMap_inj (block : ∀ a, IsBlock level (print a)) {as bs : List α}
    (inj : ∀ a ∈ as, ∀ b, print a = print b → a = b) (h : as.flatMap print = bs.flatMap print) :
    as = bs := by
  refine (flatMap_append_inj block inj (ends_nil level) (ends_nil level) ?_).1
  rw [h]

/-- A list of blocks before a heading is cut in one way, and so is what comes after the heading. -/
theorem flatMap_append_cons_inj (block : ∀ a, IsBlock level (print a)) {as bs : List α}
    (inj : ∀ a ∈ as, ∀ b, print a = print b → a = b) {heading : String}
    (hh : column level heading ≠ some '-' ∧ column level heading ≠ some ' ')
    {ls ls' : List String}
    (h : as.flatMap print ++ heading :: ls = bs.flatMap print ++ heading :: ls') :
    as = bs ∧ ls = ls' := by
  obtain ⟨same, rest⟩ := flatMap_append_inj block inj (ends_cons hh) (ends_cons hh) h
  exact ⟨same, (List.cons.inj rest).2⟩

end Blocks

/-! ## What stands inside a block -/

theorem record_cons (level : Nat) (label text : String) (labels texts : List String) :
    record level (label :: labels) (text :: texts) =
      indented level (label ++ text) :: record level labels texts := rfl

/-- A line of a record has one of the labels and says one of the texts. -/
theorem exists_of_mem_record {level : Nat} {labels texts : List String} {l : String}
    (h : l ∈ record level labels texts) :
    ∃ label ∈ labels, ∃ text ∈ texts, indented level (label ++ text) = l := by
  rw [record, ← List.map_uncurry_zip_eq_zipWith, List.mem_map] at h
  obtain ⟨⟨label, text⟩, both, line⟩ := h
  exact ⟨label, (List.of_mem_zip both).1, text, (List.of_mem_zip both).2, line⟩

/-- Lines whose labels begin with a blank lie beyond their indentation. -/
theorem forall_mem_record_below {level : Nat} {labels : List String}
    (h : ∀ label ∈ labels, column 0 label = some ' ') (texts : List String) :
    ∀ l ∈ record level labels texts, Below (level + 1) l := by
  intro l hl
  obtain ⟨label, hlabel, text, -, rfl⟩ := exists_of_mem_record hl
  exact below_succ_indented (column_append (h label hlabel) text)

/-- What is printed in a list of blocks lies beyond the indentation of what the list is in. -/
theorem forall_mem_flatMap_below {α : Type} {level : Nat} {print : α → List String}
    (block : ∀ a, IsBlock (level + 2) (print a)) (as : List α) :
    ∀ l ∈ as.flatMap print, Below (level + 1) l := by
  intro l hl
  obtain ⟨a, -, ha⟩ := List.mem_flatMap.mp hl
  exact (block a).below (Nat.le_succ (level + 1)) l ha

/-! ## What is printed as a block -/

theorem FieldOutline.isBlock_lines (level : Nat) (x : FieldOutline) :
    IsBlock level (x.lines level) := by
  rw [lines, record_cons, List.append_assoc, List.cons_append]
  refine .of_name x.name ?_
  rw [List.forall_mem_append, List.forall_mem_append]
  exact ⟨forall_mem_record_below (by decide) _, forall_mem_record_below (by decide) _,
    forall_mem_record_below (by decide) _⟩

theorem isBlock_valueLines (level : Nat) (v : String × Int) :
    IsBlock level (valueLines level v) :=
  .of_name v.1 (forall_mem_record_below (by decide) [toString v.2])

theorem EnumOutline.isBlock_lines (level : Nat) (x : EnumOutline) :
    IsBlock level (x.lines level) :=
  .of_name x.name (List.forall_mem_cons.mpr ⟨below_succ_indented rfl,
    forall_mem_flatMap_below (isBlock_valueLines (level + 2)) x.values⟩)

mutual

theorem MessageOutline.isBlock_lines (level : Nat) : ∀ m : MessageOutline,
    IsBlock level (m.lines level)
  | ⟨name, fields, messages, enums⟩ => by
    rw [MessageOutline.lines]
    simp only [List.append_assoc, List.cons_append, List.nil_append]
    refine .of_name name ?_
    simp only [List.forall_mem_append, List.forall_mem_cons]
    exact ⟨below_succ_indented rfl,
      forall_mem_flatMap_below (FieldOutline.isBlock_lines (level + 2)) fields,
      below_succ_indented rfl, forall_mem_forestLines_below level messages,
      below_succ_indented rfl,
      forall_mem_flatMap_below (EnumOutline.isBlock_lines (level + 2)) enums⟩

theorem forall_mem_forestLines_below (level : Nat) : ∀ ms : List MessageOutline,
    ∀ l ∈ forestLines (level + 2) ms, Below (level + 1) l
  | [] => List.forall_mem_nil _
  | m :: ms => by
    rw [forestLines, List.forall_mem_append]
    exact ⟨(m.isBlock_lines (level + 2)).below (Nat.le_succ (level + 1)),
      forall_mem_forestLines_below level ms⟩

end

theorem DependencyOutline.isBlock_lines (x : DependencyOutline) : IsBlock 0 x.lines :=
  .of_name x.name (forall_mem_record_below (by decide) _)

theorem MethodOutline.isBlock_lines (x : MethodOutline) : IsBlock 2 x.lines :=
  .of_name x.name (forall_mem_record_below (by decide) _)

theorem ServiceOutline.isBlock_lines (x : ServiceOutline) : IsBlock 0 x.lines :=
  .of_name x.name (List.forall_mem_cons.mpr ⟨below_succ_indented rfl,
    forall_mem_flatMap_below MethodOutline.isBlock_lines x.methods⟩)

theorem ExtensionOutline.isBlock_lines (x : ExtensionOutline) : IsBlock 0 x.lines :=
  .of_name x.name (forall_mem_record_below (by decide) _)

/-! ## What is printed determines what is shown -/

theorem boolName_inj {b b' : Bool} : boolName b = boolName b' ↔ b = b' := by
  cases b <;> cases b' <;> decide

theorem kindsText_inj {m m' : FieldKind × FieldKind} : kindsText m = kindsText m' ↔ m = m' := by
  have blank (k : FieldKind) : ' ' ∉ k.name.toList := by cases k <;> decide
  have arrow : " -> ".toList = [' ', '-', '>', ' '] := rfl
  rw [← String.toList_inj]
  simp only [kindsText, String.toList_append, arrow, List.append_assoc, List.cons_append]
  rw [append_cons_inj_of_notMem (blank _) (blank _)]
  simp [String.toList_inj, FieldKind.name_inj, Prod.ext_iff]

/-- A record with a text for every label determines the texts. -/
theorem record_inj {level : Nat} {labels ts us : List String} (ht : ts.length = labels.length)
    (hu : us.length = labels.length) (h : record level labels ts = record level labels us) :
    ts = us := by
  induction labels generalizing ts us with
  | nil => rw [List.eq_nil_of_length_eq_zero ht, List.eq_nil_of_length_eq_zero hu]
  | cons label labels ih =>
    obtain ⟨t, ts, rfl⟩ := List.exists_cons_of_length_eq_add_one ht
    obtain ⟨u, us, rfl⟩ := List.exists_cons_of_length_eq_add_one hu
    obtain ⟨line, lines⟩ := List.cons.inj h
    rw [(String.append_right_inj label).mp (indented_inj.mp line),
      ih (Nat.succ.inj ht) (Nat.succ.inj hu) lines]

/-- Of two lines that both may be missing, each is known by its label. -/
theorem optional_inj {level : Nat} {map map' oneof oneof' : Option String}
    (h : record level ["  map: "] map.toList ++ record level ["  oneof: "] oneof.toList =
      record level ["  map: "] map'.toList ++ record level ["  oneof: "] oneof'.toList) :
    map = map' ∧ oneof = oneof' := by
  -- the labels differ in their third letters
  have differ (s t : String) : "  map: " ++ s ≠ "  oneof: " ++ t := by
    intro same
    have letter := congrArg (column 2) same
    rw [column_append rfl s, column_append rfl t] at letter
    exact absurd letter (by decide)
  have differ' (s t : String) : "  oneof: " ++ t ≠ "  map: " ++ s := (differ s t).symm
  cases map <;> cases map' <;> cases oneof <;> cases oneof' <;> simp_all [record]

theorem FieldOutline.lines_inj {level : Nat} {x y : FieldOutline}
    (h : x.lines level = y.lines level) : x = y := by
  obtain ⟨name, kind, cardinality, message, enumType, map?, oneof?⟩ := x
  obtain ⟨name', kind', cardinality', message', enumType', map?', oneof?'⟩ := y
  rw [lines, lines, List.append_assoc, List.append_assoc] at h
  obtain ⟨fixed, optional⟩ := List.append_inj h rfl
  obtain ⟨hmap, rfl⟩ := optional_inj optional
  obtain rfl := Option.map_injective (fun _ _ => kindsText_inj.mp) hmap
  have texts := record_inj (by rfl) (by rfl) fixed
  simp only [List.cons.injEq, FieldKind.name_inj, Cardinality.name_inj] at texts
  obtain ⟨rfl, rfl, rfl, rfl, rfl, -⟩ := texts
  rfl

theorem valueLines_inj {level : Nat} {v w : String × Int}
    (h : valueLines level v = valueLines level w) : v = w := by
  have texts := record_inj (by rfl) (by rfl) h
  simp only [List.cons.injEq] at texts
  obtain ⟨name, number, -⟩ := texts
  exact Prod.ext name (Int.repr_inj.mp number)

theorem EnumOutline.lines_inj {level : Nat} {x y : EnumOutline}
    (h : x.lines level = y.lines level) : x = y := by
  obtain ⟨name, values⟩ := x
  obtain ⟨name', values'⟩ := y
  simp only [lines, List.cons_append, List.nil_append, List.cons.injEq, indented_inj,
    String.append_right_inj, true_and] at h
  obtain ⟨rfl, h⟩ := h
  obtain rfl := flatMap_inj (isBlock_valueLines (level + 2)) (fun _ _ _ => valueLines_inj) h
  rfl

mutual

theorem MessageOutline.lines_inj : ∀ {level : Nat} (m : MessageOutline) {n : MessageOutline},
    m.lines level = n.lines level → m = n
  | level, ⟨name, fields, messages, enums⟩, ⟨name', fields', messages', enums'⟩ => by
    intro h
    simp only [MessageOutline.lines, forestLines_eq_flatMap, List.append_assoc, List.cons_append,
      List.nil_append, List.cons.injEq, indented_inj, String.append_right_inj, true_and] at h
    obtain ⟨rfl, h⟩ := h
    -- the headings have a letter where the lists inside the message begin
    obtain ⟨rfl, rest⟩ := flatMap_append_cons_inj (FieldOutline.isBlock_lines (level + 2))
      (fun _ _ _ => FieldOutline.lines_inj) (by rw [column_indented]; decide) h
    obtain ⟨rfl, last⟩ := flatMap_append_cons_inj (MessageOutline.isBlock_lines (level + 2))
      (lines_inj_of_mem messages) (by rw [column_indented]; decide) rest
    obtain rfl := flatMap_inj (EnumOutline.isBlock_lines (level + 2))
      (fun _ _ _ => EnumOutline.lines_inj) last
    rfl

theorem lines_inj_of_mem : ∀ {level : Nat} (ms : List MessageOutline), ∀ m ∈ ms,
    ∀ n : MessageOutline, m.lines level = n.lines level → m = n
  | _, [] => List.forall_mem_nil _
  | _, m :: ms => List.forall_mem_cons.mpr ⟨fun _ => m.lines_inj, lines_inj_of_mem ms⟩

end

theorem DependencyOutline.lines_inj {x y : DependencyOutline} (h : x.lines = y.lines) :
    x = y := by
  have texts := record_inj (by rfl) (by rfl) h
  cases x
  cases y
  simpa only [List.cons.injEq, toString, Nat.repr_inj, and_true, DependencyOutline.mk.injEq]
    using texts

theorem MethodOutline.lines_inj {x y : MethodOutline} (h : x.lines = y.lines) : x = y := by
  have texts := record_inj (by rfl) (by rfl) h
  cases x
  cases y
  simpa only [List.cons.injEq, boolName_inj, and_true, MethodOutline.mk.injEq] using texts

theorem ServiceOutline.lines_inj {x y : ServiceOutline} (h : x.lines = y.lines) : x = y := by
  obtain ⟨name, methods⟩ := x
  obtain ⟨name', methods'⟩ := y
  simp only [lines, List.cons_append, List.nil_append, List.cons.injEq, indented_inj,
    String.append_right_inj, true_and] at h
  obtain ⟨rfl, h⟩ := h
  obtain rfl := flatMap_inj MethodOutline.isBlock_lines (fun _ _ _ => MethodOutline.lines_inj) h
  rfl

theorem ExtensionOutline.lines_inj {x y : ExtensionOutline} (h : x.lines = y.lines) :
    x = y := by
  have texts := record_inj (by rfl) (by rfl) h
  cases x
  cases y
  simpa only [List.cons.injEq, and_true, ExtensionOutline.mk.injEq] using texts

/-- What is printed of a file determines what is shown of it. -/
theorem Outline.lines_inj {x y : Outline} (h : x.lines = y.lines) : x = y := by
  obtain ⟨source, dependencies, messages, enums, services, extensions⟩ := x
  obtain ⟨source', dependencies', messages', enums', services', extensions'⟩ := y
  simp only [lines, List.append_assoc, List.cons_append, List.nil_append, List.cons.injEq,
    String.append_right_inj, true_and] at h
  obtain ⟨rfl, h⟩ := h
  -- every list but the last one is followed by an empty line and a title
  obtain ⟨rfl, h₁⟩ := flatMap_append_cons_inj DependencyOutline.isBlock_lines
    (fun _ _ _ => DependencyOutline.lines_inj) (by decide) h
  obtain ⟨rfl, h₂⟩ := flatMap_append_cons_inj (MessageOutline.isBlock_lines 0)
    (fun m _ _ => m.lines_inj) (by decide) (List.cons.inj h₁).2
  obtain ⟨rfl, h₃⟩ := flatMap_append_cons_inj (EnumOutline.isBlock_lines 0)
    (fun _ _ _ => EnumOutline.lines_inj) (by decide) (List.cons.inj h₂).2
  obtain ⟨rfl, h₄⟩ := flatMap_append_cons_inj ServiceOutline.isBlock_lines
    (fun _ _ _ => ServiceOutline.lines_inj) (by decide) (List.cons.inj h₃).2
  obtain rfl := flatMap_inj ExtensionOutline.isBlock_lines
    (fun _ _ _ => ExtensionOutline.lines_inj) (List.cons.inj h₄).2
  rfl

end Listing

end Protolink
