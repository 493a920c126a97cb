import Protolink.Proofs.Columns

/-!
# Labels of lines

What a line of a listing is about is said by its label, which is what stands between its indentation
and its first colon.  Labels do not depend on names, because a name is behind a colon, nor on
indentation.  So they tell how many blocks of a kind are in a listing: in each block one line has
the label of its kind, and no line of a block of another kind has it.

The lines without a label are the empty ones, and no block has any.
-/

namespace Protolink.Listing

/-! ## The label of a line -/

/-- What a line has before its first colon, without the indentation. -/
def label (line : String) : String :=
  String.ofList ((line.toList.dropWhile (· == ' ')).takeWhile (· != ':'))

/-- How many lines have a label. -/
def tally (w : String) (ls : List String) : Nat := (ls.map label).count w

theorem label_indented (level : Nat) (s : String) : label (indented level s) = label s := by
  have blanks : ∀ c ∈ List.replicate level ' ', (c == ' ') = true := by
    intro c hc
    rw [List.eq_of_mem_replicate hc]
    rfl
  rw [label, toList_indented, List.dropWhile_append_of_pos blanks]
  rfl

/-- What is behind a colon is not in the label. -/
theorem label_append {s : String} (h : ':' ∈ s.toList) (t : String) : label (s ++ t) = label s := by
  obtain ⟨before, after, hs⟩ := List.append_of_mem h
  have blanks (rest : List Char) : (before ++ ':' :: rest).dropWhile (· == ' ') =
      before.dropWhile (· == ' ') ++ ':' :: rest := by
    rw [List.dropWhile_append]
    split
    · next hnil =>
      rw [List.isEmpty_iff.mp hnil]
      rfl
    · rfl
  have cut (chars rest : List Char) : (chars ++ ':' :: rest).takeWhile (· != ':') =
      chars.takeWhile (· != ':') := by
    rw [List.takeWhile_append]
    split
    · next hlength =>
      rw [(List.takeWhile_prefix _).eq_of_length hlength]
      exact List.append_nil chars
    · rfl
  rw [label, label, String.toList_append, hs, List.append_assoc, List.cons_append, blanks, blanks,
    cut, cut]

theorem tally_append (w : String) (ls ls' : List String) :
    tally w (ls ++ ls') = tally w ls + tally w ls' := by
  rw [tally, List.map_append, List.count_append]
  rfl

theorem tally_flatMap {α : Type} (w : String) (print : α → List String) (as : List α) :
    tally w (as.flatMap print) = (as.map fun a => tally w (print a)).sum := by
  rw [tally, List.map_flatMap, List.count_flatMap]
  rfl

/-- In blocks that each have as many lines with a label. -/
theorem tally_flatMap_of_eq {α : Type} {w : String} {n : Nat} {print : α → List String}
    (h : ∀ a, tally w (print a) = n) (as : List α) :
    tally w (as.flatMap print) = as.length * n := by
  rw [tally_flatMap, funext h, List.map_const', List.sum_replicate_nat]

theorem tally_eq_zero_iff {w : String} {ls : List String} :
    tally w ls = 0 ↔ ∀ l ∈ ls, label l ≠ w := by
  rw [tally, List.count_eq_zero, List.mem_map]
  exact ⟨fun h l hl hw => h ⟨l, hl, hw⟩, fun h ⟨l, hl, hw⟩ => h l hl hw⟩

/-! ## The labels of what is printed -/

/-- The label of empty lines, and the labels that blocks of one kind have once each: those for
imported files, messages, enums, services and extensions. -/
def marks : List String := ["", "num_dependencies", "fields", "values", "methods", "extendee"]

/-- One for a label, and nothing for the others. -/
abbrev oneIf (w w' : String) : Nat := if w = w' then 1 else 0

variable {w : String}

/-- A record says something under every label that it has a text for. -/
theorem map_label_record (level : Nat) {labels : List String}
    (h : ∀ l ∈ labels, ':' ∈ l.toList) (texts : List String) :
    (record level labels texts).map label = (labels.map label).take texts.length := by
  induction labels generalizing texts with
  | nil => rw [record, List.zipWith_nil_left, List.map_nil, List.take_nil]
  | cons l labels ih =>
    obtain ⟨hl, hlabels⟩ := List.forall_mem_cons.mp h
    cases texts with
    | nil => rw [record, List.zipWith_nil_right, List.map_nil, List.length_nil, List.take_zero]
    | cons t texts =>
      rw [record_cons, List.map_cons, List.map_cons, label_indented, label_append hl,
        ih hlabels, List.length_cons, List.take_succ_cons]

theorem tally_record (level : Nat) {labels : List String} (h : ∀ l ∈ labels, ':' ∈ l.toList)
    {texts : List String} (hlength : texts.length = labels.length) :
    tally w (record level labels texts) = (labels.map label).count w := by
  rw [tally, map_label_record level h, hlength, ← List.length_map (f := label), List.take_length]

/-- A record has no line with a label that it has no text for. -/
theorem tally_record_eq_zero (level : Nat) {labels : List String}
    (h : ∀ l ∈ labels, ':' ∈ l.toList) (hw : w ∉ labels.map label) (texts : List String) :
    tally w (record level labels texts) = 0 := by
  rw [tally, map_label_record level h, List.count_eq_zero]
  exact fun mem => hw (List.mem_of_mem_take mem)

theorem tally_heading (level : Nat) (name : String) {title : String} :
    tally w [indented level ("- name: " ++ name), indented level title] =
      ["- name", label title].count w := by
  rw [tally, List.map_cons, List.map_singleton, label_indented, label_indented,
    label_append (by decide)]
  rfl

theorem tally_title (level : Nat) (title : String) :
    tally w [indented level title] = [label title].count w := by
  rw [tally, List.map_singleton, label_indented]

section Marks

variable (hw : w ∈ marks)

include hw

theorem FieldOutline.tally_lines (level : Nat) (x : FieldOutline) :
    tally w (x.lines level) = 0 := by
  have others : ∀ w ∈ marks, w ∉ ["  map: "].map label ∧ w ∉ ["  oneof: "].map label ∧
      w ∉ ["- name: ", "  kind: ", "  cardinality: ", "  message: ", "  enum: "].map label := by
    decide +kernel
  obtain ⟨map, oneof, fixed⟩ := others w hw
  rw [lines, tally_append, tally_append, tally_record_eq_zero level (by decide) fixed,
    tally_record_eq_zero level (by decide) map, tally_record_eq_zero level (by decide) oneof]

theorem tally_valueLines (level : Nat) (v : String × Int) : tally w (valueLines level v) = 0 := by
  have others : ∀ w ∈ marks, w ∉ ["- name: ", "  number: "].map label := by decide +kernel
  exact tally_record_eq_zero level (by decide) (others w hw) _

theorem EnumOutline.tally_lines (level : Nat) (x : EnumOutline) :
    tally w (x.lines level) = oneIf w "values" := by
  have heading : ∀ w ∈ marks, ["- name", label "  values:"].count w = oneIf w "values" := by
    decide +kernel
  rw [lines, tally_append, tally_heading, heading w hw,
    tally_flatMap_of_eq (tally_valueLines hw (level + 2))]
  rfl

theorem DependencyOutline.tally_lines (x : DependencyOutline) :
    tally w x.lines = oneIf w "num_dependencies" := by
  have counts : ∀ w ∈ marks, (["- name: ", "  num_dependencies: ", "  num_messages: ",
      "  num_enums: ", "  num_services: ", "  num_extensions: "].map label).count w =
      oneIf w "num_dependencies" := by decide +kernel
  rw [lines, tally_record 0 (by decide) (by rfl), counts w hw]

theorem MethodOutline.tally_lines (x : MethodOutline) : tally w x.lines = 0 := by
  have others : ∀ w ∈ marks, w ∉ ["- name: ", "  input: ", "  output: ", "  client_streaming: ",
      "  server_streaming: ", "  path: "].map label := by decide +kernel
  exact tally_record_eq_zero 2 (by decide) (others w hw) _

theorem ServiceOutline.tally_lines (x : ServiceOutline) : tally w x.lines = oneIf w "methods" := by
  have heading : ∀ w ∈ marks, ["- name", label "  methods:"].count w = oneIf w "methods" := by
    decide +kernel
  rw [lines, tally_append, tally_heading, heading w hw,
    tally_flatMap_of_eq (MethodOutline.tally_lines hw)]
  rfl

theorem ExtensionOutline.tally_lines (x : ExtensionOutline) :
    tally w x.lines = oneIf w "extendee" := by
  have counts : ∀ w ∈ marks, (["- name: ", "  extendee: ", "  message: ", "  enum: "].map
      label).count w = oneIf w "extendee" := by decide +kernel
  rw [lines, tally_record 0 (by decide) (by rfl), counts w hw]

end Marks

/-! ## Counting blocks -/

mutual

/-- The number of messages that are shown at and inside a message. -/
def MessageOutline.size : MessageOutline → Nat
  | ⟨_, _, messages, _⟩ => forestSize messages + 1

/-- The number of messages that are shown at and inside messages next to each other. -/
def forestSize : List MessageOutline → Nat
  | [] => 0
  | m :: ms => m.size + forestSize ms

end

mutual

/-- The number of enums that are shown inside a message. -/
def MessageOutline.enumCount : MessageOutline → Nat
  | ⟨_, _, messages, enums⟩ => enums.length + forestEnumCount messages

def forestEnumCount : List MessageOutline → Nat
  | [] => 0
  | m :: ms => m.enumCount + forestEnumCount ms

end

mutual

theorem MessageOutline.tally_lines (hw : w ∈ marks) (level : Nat) : ∀ m : MessageOutline,
    tally w (m.lines level) = m.size * oneIf w "fields" + m.enumCount * oneIf w "values"
  | ⟨name, fields, messages, enums⟩ => by
    have titles : ∀ w ∈ marks, ["- name", label "  fields:"].count w = oneIf w "fields" ∧
        [label "  messages:"].count w = 0 ∧ [label "  enums:"].count w = 0 := by decide +kernel
    rw [MessageOutline.lines]
    simp only [tally_append, tally_heading, tally_title, titles w hw,
      tally_flatMap_of_eq (FieldOutline.tally_lines hw (level + 2)),
      tally_flatMap_of_eq (EnumOutline.tally_lines hw (level + 2)),
      tally_forestLines hw (level + 2) messages, MessageOutline.size, MessageOutline.enumCount]
    ring

theorem tally_forestLines (hw : w ∈ marks) (level : Nat) : ∀ ms : List MessageOutline,
    tally w (forestLines level ms) =
      forestSize ms * oneIf w "fields" + forestEnumCount ms * oneIf w "values"
  | [] => by simp [forestLines, forestSize, forestEnumCount, tally]
  | m :: ms => by
    rw [forestLines, tally_append, m.tally_lines hw level, tally_forestLines hw level ms,
      forestSize, forestEnumCount]
    ring

end

/-- The labels of a listing tell how many blocks of each kind there are, and the empty lines are
those above the headings. -/
theorem Outline.tally_lines (hw : w ∈ marks) (x : Outline) : tally w x.lines =
    5 * oneIf w "" + x.dependencies.length * oneIf w "num_dependencies"
      + forestSize x.messages * oneIf w "fields"
      + (x.enums.length + forestEnumCount x.messages) * oneIf w "values"
      + x.services.length * oneIf w "methods" + x.extensions.length * oneIf w "extendee" := by
  have top : tally w ["# Generated code output.", "# source: " ++ x.source] = 0 := by
    have others : ∀ w ∈ marks,
        [label "# Generated code output.", label "# source: "].count w = 0 := by decide +kernel
    rw [← others w hw, ← label_append (s := "# source: ") (by decide) x.source]
    rfl
  have heading (title : String)
      (h : ∀ w ∈ marks, ["", label title].count w = oneIf w "") :
      tally w ["", title] = oneIf w "" := h w hw
  rw [Outline.lines, ← forestLines_eq_flatMap]
  simp only [tally_append, top, heading "dependencies:" (by decide +kernel),
    heading "messages:" (by decide +kernel), heading "enums:" (by decide +kernel),
    heading "services:" (by decide +kernel), heading "extensions:" (by decide +kernel),
    tally_flatMap_of_eq (DependencyOutline.tally_lines hw), tally_forestLines hw 0 x.messages,
    tally_flatMap_of_eq (EnumOutline.tally_lines hw 0),
    tally_flatMap_of_eq (ServiceOutline.tally_lines hw),
    tally_flatMap_of_eq (ExtensionOutline.tally_lines hw)]
  ring

/-! ## Empty lines -/

/-- Whether there is nothing but blanks in a line. -/
def blank (line : String) : Bool := line.toList.all (· == ' ')

theorem label_of_blank {l : String} (h : blank l = true) : label l = "" := by
  rw [label, List.dropWhile_eq_nil_iff.mpr (List.all_eq_true.mp h)]
  rfl

theorem filter_blank_eq_nil {ls : List String} (h : tally "" ls = 0) : ls.filter blank = [] := by
  rw [List.filter_eq_nil_iff]
  exact fun l hl hblank => tally_eq_zero_iff.mp h l hl (label_of_blank hblank)

/-- The blank lines of a listing are those above its headings. -/
theorem Outline.filter_blank (x : Outline) :
    x.lines.filter blank = List.replicate 5 "" := by
  have empty : "" ∈ marks := by decide
  have none {α : Type} {print : α → List String} {n : String} (h : n ≠ "")
      (count : ∀ a, tally "" (print a) = oneIf "" n) (as : List α) :
      (as.flatMap print).filter blank = [] := by
    refine filter_blank_eq_nil ?_
    rw [tally_flatMap_of_eq count, oneIf, if_neg h.symm, Nat.mul_zero]
  have messages : (forestLines 0 x.messages).filter blank = [] :=
    filter_blank_eq_nil (tally_forestLines empty 0 x.messages)
  have top : ["# Generated code output.", "# source: " ++ x.source].filter blank = [] := by
    refine filter_blank_eq_nil ?_
    rw [tally, List.map_cons, List.map_singleton, label_append (by decide)]
    decide +kernel
  rw [Outline.lines, ← forestLines_eq_flatMap]
  simp only [List.filter_append, top, messages,
    none (by decide) (DependencyOutline.tally_lines empty),
    none (by decide) (EnumOutline.tally_lines empty 0),
    none (by decide) (ServiceOutline.tally_lines empty),
    none (by decide) (ExtensionOutline.tally_lines empty)]
  decide +kernel

end Protolink.Listing
