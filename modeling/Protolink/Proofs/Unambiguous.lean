import Protolink.Proofs.Columns

/-!
# Listings are unambiguous

A listing is one text, so its lines are known only if no name in it ends a line.  For such names the
text is cut into the lines that were printed, and these determine what is shown, by
`Outline.lines_inj`: two files have the same listing exactly if the same is shown of both.
-/

namespace Protolink

/-- Before a line feed, a line without line breaks is cut off as it is. -/
theorem Text.lines_append_cons {l : List Char} (h : ∀ c ∈ l, Text.isLineBreak c = false)
    (cs : List Char) : Text.lines (l ++ '\n' :: cs) = l :: Text.lines cs := by
  induction l with
  | nil => rfl
  | cons c l ih =>
    obtain ⟨hc, hl⟩ := List.forall_mem_cons.mp h
    have noReturn : ∀ cs' : List Char, c = '\r' → l ++ '\n' :: cs = '\n' :: cs' → False := by
      rintro cs' rfl -
      exact absurd hc (by decide)
    rw [List.cons_append, Text.lines.eq_3 c _ noReturn, hc, ih hl]
    rfl

/-- A line of text that is written without indentation is appended as it is. -/
theorem Buffer.textLine_eq (l : String) {b : Buffer} (h : b.indent = 0) :
    b.textLine l = { b with lines := b.lines ++ [l] } := by
  have joined : String.join ([Buffer.Piece.text l].map b.pieceText) = l := String.empty_append
  have placed : (if l = "" then l else Listing.indented b.indent l) = l := by
    rw [h, Listing.indented_zero, ite_self]
  rw [Buffer.textLine, Buffer.line, joined]
  exact congrArg (fun t => { b with lines := b.lines ++ [t] }) placed

theorem Buffer.foldl_textLine (ls : List String) {b : Buffer} (h : b.indent = 0) :
    ls.foldl Buffer.textLine b = { b with lines := b.lines ++ ls } := by
  induction ls generalizing b with
  | nil => rw [List.foldl_nil, List.append_nil]
  | cons l ls ih =>
    rw [List.foldl_cons, textLine_eq l h, ih (by exact h), List.append_assoc]
    rfl

theorem Buffer.content_mk [WorkingDirectory] (name : String) (home : ImportPath)
    (lines : List String) : ({ name, home, lines } : Buffer).content = "\n".intercalate lines := rfl

namespace Listing

/-! ## Names without line breaks -/

/-- Whether no character of a text ends a line. -/
def Unbroken (s : String) : Prop := ∀ c ∈ s.toList, Text.isLineBreak c = false

instance (s : String) : Decidable (Unbroken s) := List.decidableBAll _ s.toList

/-- Whether no text in a list holds a line break. -/
def Plain (ss : List String) : Prop := ∀ s ∈ ss, Unbroken s

instance (ss : List String) : Decidable (Plain ss) := List.decidableBAll _ ss

/-- The names that are shown of a field, and of what it refers to. -/
def FieldOutline.names (x : FieldOutline) : List String :=
  [x.name, x.message, x.enumType] ++ x.oneof?.toList

def EnumOutline.names (x : EnumOutline) : List String := x.name :: x.values.map (·.1)

mutual

/-- The names that are shown of a message and of everything inside it. -/
def MessageOutline.names : MessageOutline → List String
  | ⟨name, fields, messages, enums⟩ =>
    name :: (fields.flatMap FieldOutline.names ++ forestNames messages
      ++ enums.flatMap EnumOutline.names)

/-- The names that are shown of messages next to each other. -/
def forestNames : List MessageOutline → List String
  | [] => []
  | m :: ms => m.names ++ forestNames ms

end

def DependencyOutline.names (x : DependencyOutline) : List String := [x.name]

def MethodOutline.names (x : MethodOutline) : List String := [x.name, x.input, x.output, x.path]

def ServiceOutline.names (x : ServiceOutline) : List String :=
  x.name :: x.methods.flatMap MethodOutline.names

def ExtensionOutline.names (x : ExtensionOutline) : List String :=
  [x.name, x.extendee, x.message, x.enumType]

/-- All names that are shown of a file. -/
def Outline.names (x : Outline) : List String :=
  x.source :: (x.dependencies.flatMap DependencyOutline.names ++ forestNames x.messages
    ++ x.enums.flatMap EnumOutline.names ++ x.services.flatMap ServiceOutline.names
    ++ x.extensions.flatMap ExtensionOutline.names)

theorem unbroken_append {s t : String} (hs : Unbroken s) (ht : Unbroken t) : Unbroken (s ++ t) := by
  rw [Unbroken, String.toList_append, List.forall_mem_append]
  exact ⟨hs, ht⟩

theorem unbroken_indented {level : Nat} {s : String} (h : Unbroken s) :
    Unbroken (indented level s) := by
  rw [Unbroken, toList_indented, List.forall_mem_append]
  refine ⟨fun c hc => ?_, h⟩
  rw [List.eq_of_mem_replicate hc]
  rfl

theorem unbroken_nat (n : Nat) : Unbroken (toString n) := by
  intro c hc
  have digit : c.isDigit := by
    change c ∈ n.repr.toList at hc
    rw [Nat.toList_repr] at hc
    exact Nat.isDigit_of_mem_toDigits (by decide) (by decide) hc
  by_contra broken
  rw [Bool.not_eq_false, Text.isLineBreak, decide_eq_true_iff] at broken
  fin_cases broken <;> exact absurd digit (by decide)

theorem unbroken_int (n : Int) : Unbroken (toString n) := by
  change Unbroken n.repr
  rw [Int.repr_eq_if]
  split
  · exact unbroken_nat n.toNat
  · exact unbroken_append (by decide +kernel) (unbroken_nat (-n).toNat)

theorem unbroken_kind (k : FieldKind) : Unbroken k.name := by cases k <;> decide +kernel

theorem unbroken_cardinality (c : Cardinality) : Unbroken c.name := by cases c <;> decide +kernel

theorem unbroken_bool (b : Bool) : Unbroken (boolName b) := by cases b <;> decide +kernel

theorem Plain.cons {s : String} {ss : List String} (hs : Unbroken s) (h : Plain ss) :
    Plain (s :: ss) := List.forall_mem_cons.mpr ⟨hs, h⟩

theorem plain_cons_iff {s : String} {ss : List String} :
    Plain (s :: ss) ↔ Unbroken s ∧ Plain ss := List.forall_mem_cons

theorem plain_append_iff {ss ts : List String} : Plain (ss ++ ts) ↔ Plain ss ∧ Plain ts :=
  List.forall_mem_append

theorem plain_nil : Plain [] := List.forall_mem_nil _

/-- If plain names make plain lines, plain names of several make plain lines. -/
theorem plain_flatMap {α : Type} {names lines : α → List String}
    (h : ∀ a, Plain (names a) → Plain (lines a)) {as : List α} (plain : Plain (as.flatMap names)) :
    Plain (as.flatMap lines) := by
  rw [Plain, List.forall_mem_flatMap] at plain ⊢
  exact fun a ha => h a (plain a ha)

/-! ## Lines without line breaks -/

/-- The lines of a record are plain if its labels are, and if what they say is. -/
theorem plain_record {level : Nat} {labels texts : List String} (hl : Plain labels)
    (ht : Plain texts) : Plain (record level labels texts) := by
  intro l hl'
  obtain ⟨label, hlabel, text, htext, rfl⟩ := exists_of_mem_record hl'
  exact unbroken_indented (unbroken_append (hl label hlabel) (ht text htext))

theorem plain_title {level : Nat} {title : String} (h : Unbroken title) :
    Plain [indented level title] := .cons (unbroken_indented h) plain_nil

/-- A name with the title of a list below it is plain. -/
theorem plain_heading {level : Nat} {name title : String} (hn : Unbroken name)
    (ht : Unbroken title) :
    Plain [indented level ("- name: " ++ name), indented level title] :=
  .cons (unbroken_indented (unbroken_append (by decide +kernel) hn)) (plain_title ht)

theorem FieldOutline.plain_lines (level : Nat) (x : FieldOutline) (h : Plain x.names) :
    Plain (x.lines level) := by
  simp only [names, List.cons_append, List.nil_append, plain_cons_iff] at h
  obtain ⟨hname, hmessage, henum, honeof⟩ := h
  simp only [lines, plain_append_iff]
  refine ⟨⟨plain_record (by decide +kernel) ?_, plain_record (by decide +kernel) ?_⟩,
    plain_record (by decide +kernel) honeof⟩
  · exact .cons hname <| .cons (unbroken_kind x.kind) <|
      .cons (unbroken_cardinality x.cardinality) <| .cons hmessage <| .cons henum plain_nil
  · intro text htext
    obtain ⟨m, -, rfl⟩ := Option.map_eq_some_iff.mp (Option.mem_toList.mp htext)
    have arrow : Unbroken " -> " := by decide +kernel
    exact unbroken_append (unbroken_append (unbroken_kind m.1) arrow) (unbroken_kind m.2)

theorem plain_valueLines (level : Nat) (v : String × Int) (h : Unbroken v.1) :
    Plain (valueLines level v) :=
  plain_record (by decide +kernel) (.cons h (.cons (unbroken_int v.2) plain_nil))

theorem EnumOutline.plain_lines (level : Nat) (x : EnumOutline) (h : Plain x.names) :
    Plain (x.lines level) := by
  obtain ⟨hname, hvalues⟩ := plain_cons_iff.mp h
  refine plain_append_iff.mpr ⟨plain_heading hname (by decide +kernel), ?_⟩
  rw [List.map_eq_flatMap] at hvalues
  exact plain_flatMap
    (fun v hv => plain_valueLines (level + 2) v (plain_cons_iff.mp hv).1) hvalues

mutual

theorem MessageOutline.plain_lines (level : Nat) : ∀ m : MessageOutline, Plain m.names →
    Plain (m.lines level)
  | ⟨name, fields, messages, enums⟩ => by
    intro h
    rw [MessageOutline.names, plain_cons_iff, plain_append_iff, plain_append_iff] at h
    obtain ⟨hname, ⟨hfields, hmessages⟩, henums⟩ := h
    simp only [MessageOutline.lines, plain_append_iff]
    exact ⟨⟨⟨⟨⟨plain_heading hname (by decide +kernel),
      plain_flatMap (FieldOutline.plain_lines (level + 2)) hfields⟩,
      plain_title (by decide +kernel)⟩,
      plain_forestLines (level + 2) messages hmessages⟩,
      plain_title (by decide +kernel)⟩,
      plain_flatMap (EnumOutline.plain_lines (level + 2)) henums⟩

theorem plain_forestLines (level : Nat) : ∀ ms : List MessageOutline, Plain (forestNames ms) →
    Plain (forestLines level ms)
  | [] => id
  | m :: ms => by
    rw [forestNames, forestLines, plain_append_iff, plain_append_iff]
    exact And.imp (m.plain_lines level) (plain_forestLines level ms)

end

theorem DependencyOutline.plain_lines (x : DependencyOutline) (h : Plain x.names) :
    Plain x.lines := by
  refine plain_record (by decide +kernel) (.cons (plain_cons_iff.mp h).1 ?_)
  exact .cons (unbroken_nat _) <| .cons (unbroken_nat _) <| .cons (unbroken_nat _) <|
    .cons (unbroken_nat _) <| .cons (unbroken_nat _) plain_nil

theorem MethodOutline.plain_lines (x : MethodOutline) (h : Plain x.names) : Plain x.lines := by
  simp only [names, plain_cons_iff] at h
  obtain ⟨hname, hinput, houtput, hpath, -⟩ := h
  refine plain_record (by decide +kernel) ?_
  exact .cons hname <| .cons hinput <| .cons houtput <| .cons (unbroken_bool _) <|
    .cons (unbroken_bool _) <| .cons hpath plain_nil

theorem ServiceOutline.plain_lines (x : ServiceOutline) (h : Plain x.names) : Plain x.lines := by
  obtain ⟨hname, hmethods⟩ := plain_cons_iff.mp h
  exact plain_append_iff.mpr ⟨plain_heading hname (by decide +kernel),
    plain_flatMap MethodOutline.plain_lines hmethods⟩

theorem ExtensionOutline.plain_lines (x : ExtensionOutline) (h : Plain x.names) :
    Plain x.lines := plain_record (by decide +kernel) h

/-- What is printed has no line breaks inside its lines if the names have none. -/
theorem Outline.plain_lines (x : Outline) (h : Plain x.names) : Plain x.lines := by
  simp only [names, plain_append_iff, plain_cons_iff] at h
  obtain ⟨hsource, ⟨⟨⟨hdependencies, hmessages⟩, henums⟩, hservices⟩, hextensions⟩ := h
  have title (s : String) (hs : Unbroken s) : Plain ["", s] :=
    .cons (by decide +kernel) (.cons hs plain_nil)
  rw [lines, ← forestLines_eq_flatMap]
  simp only [plain_append_iff]
  have top : Plain ["# Generated code output.", "# source: " ++ x.source] :=
    .cons (by decide +kernel) (.cons (unbroken_append (by decide +kernel) hsource) plain_nil)
  exact ⟨⟨⟨⟨⟨⟨⟨⟨⟨⟨top, title _ (by decide +kernel)⟩,
    plain_flatMap DependencyOutline.plain_lines hdependencies⟩, title _ (by decide +kernel)⟩,
    plain_forestLines 0 x.messages hmessages⟩, title _ (by decide +kernel)⟩,
    plain_flatMap (EnumOutline.plain_lines 0) henums⟩, title _ (by decide +kernel)⟩,
    plain_flatMap ServiceOutline.plain_lines hservices⟩, title _ (by decide +kernel)⟩,
    plain_flatMap ExtensionOutline.plain_lines hextensions⟩

/-! ## The text of a listing -/

/-- The lines of a text are those it was made of, if these are plain. -/
theorem lines_join {ls : List String} (h : Plain ls) :
    (Text.lines (String.join (ls.map (· ++ "\n"))).toList).map String.ofList = ls := by
  have newline : "\n".toList = ['\n'] := rfl
  induction ls with
  | nil => rfl
  | cons l ls ih =>
    obtain ⟨hl, hls⟩ := plain_cons_iff.mp h
    rw [List.map_cons, String.join_cons, String.toList_append, String.toList_append, newline,
      List.append_assoc, List.singleton_append, Text.lines_append_cons hl, List.map_cons, ih hls,
      String.ofList_toList]

/-- Lines between line feeds are the text that they make, up to the line feed at its end. -/
theorem intercalate_append_newline (l : String) (ls : List String) :
    "\n".intercalate (l :: ls) ++ "\n" = String.join ((l :: ls).map (· ++ "\n")) := by
  induction ls generalizing l with
  | nil => simp
  | cons l' ls ih =>
    rw [String.intercalate_cons_cons, String.append_assoc, ih]
    simp only [List.map_cons, String.join_cons, String.append_assoc]

theorem text_eq_ok_iff {schema : Schema} {f : File} {t : String} :
    text schema f = .ok t ↔ ∃ o, outline schema f = .ok o ∧ o.text = t := by
  rw [text_eq]
  cases outline schema f <;> simp [Except.map]

/-- Plain outlines with the same text are the same. -/
theorem Outline.text_inj {x y : Outline} (hx : Plain x.names) (hy : Plain y.names) :
    x.text = y.text ↔ x = y := by
  refine ⟨fun h => Outline.lines_inj ?_, congrArg Outline.text⟩
  rw [← lines_join (x.plain_lines hx), ← lines_join (y.plain_lines hy)]
  exact congrArg (fun t : String => (Text.lines t.toList).map String.ofList) h

/-- A name with line breaks can look like the end of one message and the beginning of another. -/
example :
    let tree (messages : List MessageOutline) : Outline := ⟨"tree.proto", [], messages, [], [], []⟩
    (tree [⟨"Tree\n  fields:\n  messages:\n  enums:\n- name: Leaf", [], [], []⟩]).text =
      (tree [⟨"Tree", [], [], []⟩, ⟨"Leaf", [], [], []⟩]).text := by
  decide +kernel

/-- What is written for a file with a plain outline has the lines that are printed. -/
theorem write_eq {schema : Schema} {f : File} {o : Outline} (h : outline schema f = .ok o)
    (plain : Plain o.names) : write schema f = .ok {
      name := outputName f.name ".out"
      home := ⟨outputName f.name ".out", "", ""⟩
      lines := o.lines } := by
  rw [write, text_eq_ok_iff.mpr ⟨o, h, rfl⟩]
  refine congrArg Except.ok ?_
  rw [Buffer.foldl_textLine _ rfl, Outline.text, lines_join (o.plain_lines plain)]
  rfl

theorem Outline.intercalate_lines (x : Outline) : "\n".intercalate x.lines ++ "\n" = x.text := by
  obtain ⟨l, ls, h⟩ : ∃ l ls, x.lines = l :: ls := ⟨_, _, rfl⟩
  rw [text, h]
  exact intercalate_append_newline l ls

/-- It is the listing without the line feed at the end. -/
theorem exists_write [WorkingDirectory] {schema : Schema} {f : File} {o : Outline}
    (h : outline schema f = .ok o) (plain : Plain o.names) :
    ∃ b, write schema f = .ok b ∧ b.content ++ "\n" = o.text := by
  refine ⟨_, write_eq h plain, ?_⟩
  rw [Buffer.content_mk, o.intercalate_lines]

/-- A file with a listing has an outline, and if no name in it holds a line break, the listing tells
all of it: another file has the same listing exactly if it has the same outline.  The same is true
of the files that are written. -/
theorem text_eq_text_iff [WorkingDirectory] {schema schema' : Schema} {f f' : File} {t t' : String}
    (h : text schema f = .ok t) (h' : text schema' f' = .ok t') :
    ∃ o o', outline schema f = .ok o ∧ outline schema' f' = .ok o' ∧
      (Plain o.names → Plain o'.names → (t = t' ↔ o = o') ∧
        ∃ b b', write schema f = .ok b ∧ write schema' f' = .ok b' ∧
          (b.content = b'.content ↔ o = o')) := by
  obtain ⟨o, ho, rfl⟩ := text_eq_ok_iff.mp h
  obtain ⟨o', ho', rfl⟩ := text_eq_ok_iff.mp h'
  refine ⟨o, o', ho, ho', fun plain plain' => ?_⟩
  obtain ⟨b, hb, content⟩ := exists_write ho plain
  obtain ⟨b', hb', content'⟩ := exists_write ho' plain'
  have same : o.text = o'.text ↔ o = o' := Outline.text_inj plain plain'
  refine ⟨same, b, b', hb, hb', ?_⟩
  rw [← same, ← content, ← content', String.append_left_inj]

/-- A message inside another one. -/
def nestedFile : FileDescriptor :=
  { name := "tree.proto", messages := [{ name := "Tree", nested := [{ name := "Leaf" }] }] }

/-- Two messages next to each other that are called like those in `nestedFile`. -/
def siblingFile : FileDescriptor :=
  { name := "tree.proto", messages := [{ name := "Tree" }, { name := "Tree.Leaf" }] }

theorem text_eq_text_iff_siblings :
    ∃ s s' f f' t t',
      Schema.ofFiles .bundled [nestedFile] ["tree.proto"] = .ok s ∧ s.files = [f] ∧
      Schema.ofFiles .bundled [siblingFile] ["tree.proto"] = .ok s' ∧ s'.files = [f'] ∧
      text s f = .ok t ∧ text s' f' = .ok t' ∧ t ≠ t' := by
  let : WorkingDirectory := .ofPath ['/']
  let tree (messages : List MessageOutline) : Outline := ⟨"tree.proto", [], messages, [], [], []⟩
  let o := tree [⟨"Tree", [], [⟨"Tree.Leaf", [], [], []⟩], []⟩]
  let o' := tree [⟨"Tree", [], [], []⟩, ⟨"Tree.Leaf", [], [], []⟩]
  obtain ⟨s, f, hs, hf, ho⟩ : ∃ s f, Schema.ofFiles .bundled [nestedFile] ["tree.proto"] = .ok s ∧
      s.files = [f] ∧ outline s f = .ok o := ⟨_, _, rfl, rfl, rfl⟩
  obtain ⟨s', f', hs', hf', ho'⟩ : ∃ s f,
      Schema.ofFiles .bundled [siblingFile] ["tree.proto"] = .ok s ∧
      s.files = [f] ∧ outline s f = .ok o' := ⟨_, _, rfl, rfl, rfl⟩
  have ht := text_eq_ok_iff.mpr ⟨o, ho, rfl⟩
  have ht' := text_eq_ok_iff.mpr ⟨o', ho', rfl⟩
  obtain ⟨p, p', hp, hp', told⟩ := text_eq_text_iff ht ht'
  obtain rfl : o = p := Except.ok.inj (ho.symm.trans hp)
  obtain rfl : o' = p' := Except.ok.inj (ho'.symm.trans hp')
  have same := (told (by decide +kernel) (by decide +kernel)).1
  have differ : o ≠ o' := fun h => absurd (congrArg (·.messages.length) h) (by decide)
  exact ⟨s, s', f, f', o.text, o'.text, hs, hf, hs', hf', ht, ht', mt same.mp differ⟩

end Listing

end Protolink
