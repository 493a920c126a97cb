import Protolink.Proofs.Rendering

/-!
# Numbers in listings

A listing says of each import how many imports, messages, enums, services and extensions it has.
These numbers are taken from the lists of its node, and the listing of the import itself is printed
by a recursion of its own.  Both go through the same messages and enums, so that the numbers are
those of the blocks in the other listing.

Main statement: `dependencies_tallied`.
-/

namespace Protolink.Listing

variable {s : Schema}

/-! ## Sizes of what is shown -/

mutual

/-- The messages that are shown are those that are listed. -/
theorem size_messageShown : ∀ m : Message,
    (messageShown s m).size = (m :: m.collect).length
  | ⟨body, nested⟩ => by
    rw [messageShown, MessageOutline.size, forestSize_nestedShown body nested, Message.collect,
      List.length_cons]

theorem forestSize_nestedShown (body : MessageBody) : ∀ ms : List Message,
    forestSize (nestedShown s body ms) = (Message.collectFrom body ms).length
  | [] => rfl
  | m :: ms => by
    rw [nestedShown, Message.collectFrom, List.length_append, ← forestSize_nestedShown body ms]
    cases body.lists m.toMessageBody with
    | false => exact (Nat.zero_add _).symm
    | true => exact congrArg (· + _) (size_messageShown m)

end

mutual

/-- The enums that are shown are those that are listed. -/
theorem enumCount_messageShown : ∀ m : Message,
    (messageShown s m).enumCount = m.collectEnums.length
  | ⟨body, nested⟩ => by
    rw [messageShown, MessageOutline.enumCount, forestEnumCount_nestedShown body nested,
      List.length_map, Message.collectEnums, List.length_append]

theorem forestEnumCount_nestedShown (body : MessageBody) : ∀ ms : List Message,
    forestEnumCount (nestedShown s body ms) = (Message.collectEnumsFrom body ms).length
  | [] => rfl
  | m :: ms => by
    rw [nestedShown, Message.collectEnumsFrom, List.length_append,
      ← forestEnumCount_nestedShown body ms]
    cases body.lists m.toMessageBody with
    | false => exact (Nat.zero_add _).symm
    | true => exact congrArg (· + _) (enumCount_messageShown m)

end

theorem forestSize_map (ms : List Message) : forestSize (ms.map (messageShown s)) =
    (ms.flatMap fun m => m :: m.collect).length := by
  induction ms with
  | nil => rfl
  | cons m ms ih =>
    rw [List.map_cons, forestSize, ih, size_messageShown, List.flatMap_cons, List.length_append]

theorem forestEnumCount_map (ms : List Message) : forestEnumCount (ms.map (messageShown s)) =
    (ms.flatMap (·.collectEnums)).length := by
  induction ms with
  | nil => rfl
  | cons m ms ih =>
    rw [List.map_cons, forestEnumCount, ih, enumCount_messageShown, List.flatMap_cons,
      List.length_append]

/-! ## What is said of an import -/

/-- The lines about an import with a name, if the numbers are those of the blocks in its own
listing: of imports, messages and enums at any depth, services and extensions. -/
def tallyLines (name : String) (ls : List String) : List String :=
  ["- name: " ++ name,
   "  num_dependencies: " ++ toString (tally "num_dependencies" ls),
   "  num_messages: " ++ toString (tally "fields" ls),
   "  num_enums: " ++ toString (tally "values" ls),
   "  num_services: " ++ toString (tally "methods" ls),
   "  num_extensions: " ++ toString (tally "extendee" ls)]

/-- The labels in a listing tell how much is shown. -/
theorem tallyLines_lines (name : String) (o : Outline) : tallyLines name o.lines =
    (⟨name, o.dependencies.length, forestSize o.messages,
      o.enums.length + forestEnumCount o.messages, o.services.length, o.extensions.length⟩ :
        DependencyOutline).lines := by
  have count (w : String) (hw : w ∈ marks) := Outline.tally_lines hw o
  simp only [tallyLines, count _ (show "num_dependencies" ∈ marks by decide),
    count _ (show "fields" ∈ marks by decide), count _ (show "values" ∈ marks by decide),
    count _ (show "methods" ∈ marks by decide), count _ (show "extendee" ∈ marks by decide)]
  simp [DependencyOutline.lines, record, indented_zero]

/-- Blocks of one length stand in a list at multiples of it. -/
theorem take_drop_flatMap {α : Type} {n : Nat} {print : α → List String}
    (hn : ∀ a, (print a).length = n) {as : List α} {i : Nat} {a : α} (ha : as[i]? = some a)
    (rest : List String) : ((as.flatMap print ++ rest).drop (n * i)).take n = print a := by
  induction as generalizing i with
  | nil => cases ha
  | cons a' as ih =>
    rw [List.flatMap_cons, List.append_assoc]
    cases i with
    | zero =>
      obtain rfl : a' = a := by simpa using ha
      rw [Nat.mul_zero, List.drop_zero, List.take_left' (hn a')]
    | succ i =>
      rw [Nat.mul_succ, Nat.add_comm, ← List.drop_drop, List.drop_left' (hn a')]
      exact ih (by simpa using ha)

section Linked

variable {scheme : ImportScheme} {files : List FileDescriptor} {wanted : List String}
  (h : Schema.ofFiles scheme files wanted = .ok s)

include h

/-- What is printed of a linked file is what is shown of it. -/
theorem eq_of_entries {f : File} (hf : f ∈ s.files) {ls : List String}
    (hls : entries s f = .ok ls) : ls = (shown s f).lines := by
  obtain ⟨d, follows⟩ := Schema.exists_follows h f hf
  rw [entries_eq] at hls
  cases ho : outline s f with
  | error e => simp [ho, Except.map] at hls
  | ok o =>
    obtain rfl := (outline_gives follows).eq_of_ok ho
    simpa [ho, Except.map] using hls.symm

/-- The numbers that are printed of a file are those of what is shown of it. -/
theorem dependencyOutline_eq {f : File} (hf : f ∈ s.files) : dependencyOutline f =
    ⟨f.name, (shown s f).dependencies.length, forestSize (shown s f).messages,
      (shown s f).enums.length + forestEnumCount (shown s f).messages,
      (shown s f).services.length, (shown s f).extensions.length⟩ := by
  have imports : (s.importsOf f).length = f.dependencies.length :=
    (Schema.forall₂_importsOf h hf).length_eq.symm
  simp only [dependencyOutline, shown, forestSize_map, forestEnumCount_map, List.length_map,
    imports, File.collectMessages, File.collectEnums, List.length_append]

/-- What the listing of a file says of the numbers of its imports is true of their own listings.
Each import stands in its place behind the heading, and leads to a file of the schema. -/
theorem dependencies_tallied {f : File} (hf : f ∈ s.files) {ls : List String}
    (hls : entries s f = .ok ls) {i : Nat} {t : Symbol} (ht : f.dependencies[i]? = some t) :
    ∃ g ∈ s.files, g.name = t.fullName ∧ s.file? t.fullName = some g ∧
      ∀ ls', entries s g = .ok ls' → (ls.drop (4 + 6 * i)).take 6 = tallyLines g.name ls' := by
  obtain ⟨g, hg, hfile, hname⟩ : ∃ g, (s.importsOf f)[i]? = some g ∧
      s.file? t.fullName = some g ∧ t.fullName = g.name := by
    have found := Schema.forall₂_importsOf h hf
    obtain ⟨hi, rfl⟩ := List.getElem?_eq_some_iff.mp ht
    have hi' : i < (s.importsOf f).length := found.length_eq ▸ hi
    exact ⟨_, List.getElem?_eq_getElem hi', found.get hi hi'⟩
  have mem : g ∈ s.files := List.mem_of_find?_eq_some hfile
  refine ⟨g, mem, hname.symm, hfile, fun ls' hls' => ?_⟩
  obtain rfl := eq_of_entries h hf hls
  obtain rfl := eq_of_entries h mem hls'
  rw [tallyLines_lines, ← dependencyOutline_eq h mem, ← List.drop_drop]
  have placed : (shown s f).dependencies[i]? = some (dependencyOutline g) := by
    rw [shown, List.getElem?_map, hg, Option.map_some]
  have length (x : DependencyOutline) : x.lines.length = 6 := rfl
  rw [Outline.lines]
  simp only [List.append_assoc, List.cons_append, List.nil_append]
  exact take_drop_flatMap length placed _

end Linked

/-- Two files that import each other. -/
def mutualFiles : List FileDescriptor := [
  { name := "road.proto", dependencies := ["town.proto"]
    messages := [
      { name := "Road", nested := [{ name := "Lane", enums := [{ name := "Kind" }] }] }]
    enums := [{ name := "Surface" }] },
  { name := "town.proto", dependencies := ["road.proto"]
    messages := [{ name := "Town" }]
    services := [{ name := "Map" }]
    extensions := [
      { name := "mayor", number := 7, label := some 1, kind := some .string
        extendee := some "Town" }] }]

theorem dependencies_tallied_mutualFiles :
    ∃ s, Schema.ofFiles .bundled mutualFiles [] = .ok s ∧ s.files.length = 2 ∧
      ∀ f ∈ s.files, ∃ ls, entries s f = .ok ls ∧ ∃ g ∈ s.files, g.name ≠ f.name ∧
        ∃ ls', entries s g = .ok ls' ∧ (ls.drop 4).take 6 = tallyLines g.name ls' := by
  have made : (Schema.ofFiles .bundled mutualFiles []).toOption.any fun s =>
      decide (s.files.length = 2) && s.files.all fun f => (entries s f).isOk &&
        f.dependencies[0]?.any fun t => t.fullName != f.name := by decide +kernel
  obtain ⟨s, hs⟩ : ∃ s, Schema.ofFiles .bundled mutualFiles [] = .ok s :=
    exists_ofFiles_of_isOk (by decide +kernel)
  rw [hs, Except.toOption, Option.any_some, Bool.and_eq_true, decide_eq_true_iff,
    List.all_eq_true] at made
  have printed (f : File) (hf : f ∈ s.files) : ∃ ls, entries s f = .ok ls := by
    have both := made.2 f hf
    rw [Bool.and_eq_true] at both
    exact exists_ok_of_isOk both.1
  refine ⟨s, hs, made.1, fun f hf => ?_⟩
  obtain ⟨ls, hls⟩ := printed f hf
  obtain ⟨t, ht, other⟩ : ∃ t, f.dependencies[0]? = some t ∧ t.fullName ≠ f.name := by
    have both := made.2 f hf
    rw [Bool.and_eq_true, Option.any_eq_true] at both
    obtain ⟨t, ht, other⟩ := both.2
    exact ⟨t, ht, bne_iff_ne.mp other⟩
  obtain ⟨g, hg, name, -, tallies⟩ := dependencies_tallied hs hf hls ht
  obtain ⟨ls', hls'⟩ := printed g hg
  exact ⟨ls, hls, g, hg, name ▸ other, ls', hls', tallies ls' hls'⟩

example : ((Schema.ofFiles .bundled mutualFiles []).toOption.map fun s =>
    s.files.map fun f => ((entries s f).toOption.getD []).drop 4 |>.take 6) = some [
      ["- name: town.proto", "  num_dependencies: 1", "  num_messages: 1", "  num_enums: 0",
        "  num_services: 1", "  num_extensions: 1"],
      ["- name: road.proto", "  num_dependencies: 1", "  num_messages: 2", "  num_enums: 2",
        "  num_services: 0", "  num_extensions: 0"]] := by decide +kernel

end Protolink.Listing
