import Protolink.Proofs.Rendering

/-!
# When the generators fail

The generators of listings and of references are run on a linked schema, and of all that they read
there only one thing can be missing: the field for the keys or for the values of a map, because what
is a map entry is said by its descriptor and not by its fields.  Listings fail exactly if such a map
is listed in one of the files to generate, wherever its entry is declared; references never fail.

Main statement: `Request.generators_answer`.
-/

namespace Protolink

/-- All maps that are listed in files to generate have entries with keys and values. -/
def Schema.MapsPaired (s : Schema) : Prop :=
  ∀ f ∈ s.filesToGenerate, ∀ m ∈ f.collectMessages, ∀ x ∈ m.fields, s.Paired x

instance (s : Schema) : Decidable s.MapsPaired :=
  inferInstanceAs (Decidable (∀ f ∈ s.filesToGenerate, _))

namespace Listing

variable {s : Schema} {d : FileDescriptor} {f : File}

variable (s f) in
/-- The output for a file of which all is shown. -/
def buffer : Buffer :=
  let name := outputName f.name ".out"
  ((Text.lines (shown s f).text.toList).map String.ofList).foldl Buffer.textLine
    { name, home := ⟨name, "", ""⟩ }

theorem write_gives (h : f.Follows s d) : Gives (write s f)
    (∀ m ∈ f.collectMessages, ∀ x ∈ m.fields, s.Paired x) (buffer s f) := by
  have text_bind : text s f = do return Outline.text (← outline s f) := by
    rw [text_eq]
    cases outline s f <;> rfl
  rw [write, text_bind]
  exact (outline_gives h).map.map

/-- Oneofs and indentation do not matter for whether a field can be listed. -/
theorem exists_fieldBlock_iff {x : Field} (h : x.Followed s) (level : Nat) (owner : MessageBody) :
    (∃ ls, fieldBlock s level owner x = .ok ls) ↔ s.Paired x := by
  rw [← (fieldOutline_gives owner h).exists_ok_iff, fieldBlock_eq]
  cases fieldOutline s owner x <;> simp [Except.map]

theorem exists_extensionBlock {x : Field} (h : x.Followed s) :
    ∃ ls, extensionBlock x = .ok ls := by
  rw [extensionBlock_eq, extensionOutline_eq h]
  exact ⟨_, rfl⟩

end Listing

/-! ## Steps that cannot fail -/

namespace Buffer

/-- Only an indentation can be refused. -/
theorem exists_perform [WorkingDirectory] {step : Step}
    (h : ∀ level, step = .setIndent level → 0 ≤ level) (b : Buffer) : ∃ r, b.perform step = .ok r := by
  cases step with
  | setIndent level =>
    rw [perform, setIndent, if_neg (not_lt.mpr (h level rfl))]
    exact ⟨_, rfl⟩
  | _ => exact ⟨_, rfl⟩

theorem run_ok [WorkingDirectory] {steps : List Step}
    (h : ∀ level, .setIndent level ∈ steps → 0 ≤ level) (b : Buffer) : ∀ answer ∈ (b.run steps).1, ∃ a, answer = .ok a := by
  induction steps generalizing b with
  | nil => exact List.forall_mem_nil _
  | cons step steps ih =>
    obtain ⟨⟨a, b'⟩, hstep⟩ := exists_perform
      (fun level hlevel => h level (hlevel ▸ List.mem_cons_self)) b
    rw [run, hstep, List.forall_mem_cons]
    exact ⟨⟨a, rfl⟩, ih (fun level hlevel => h level (List.mem_cons_of_mem _ hlevel)) b'⟩

end Buffer

/-- The steps for references all go through. -/
theorem References.steps_ok [WorkingDirectory] (source : String) (mentioned : List Ident)
    (b : Buffer) :
    ∀ answer ∈ (b.run (steps source mentioned)).1, ∃ a, answer = .ok a := by
  refine Buffer.run_ok (fun level hlevel => ?_) b
  simp [steps] at hlevel
  omega

/-! ## Answers -/

namespace Request

section Answers

variable [WorkingDirectory] {r : Request} {scheme : ImportScheme} {s : Schema}

/-- A generator that writes one buffer for each file answers with all of them, or with the fault. -/
theorem process_perFile (write : Schema → File → Except Error Buffer) {P : File → Prop}
    {b : File → Buffer} (h : ∀ f ∈ s.filesToGenerate, Gives (write s f) (P f) (b f))
    (hs : Schema.ofFiles scheme r.files r.filesToGenerate = .ok s) (wanted : r.filesToGenerate ≠ [])
    (features : Nat) (backtrace : Error → String) :
    ((∀ f ∈ s.filesToGenerate, P f) → ∃ files,
      r.process (Generator.perFile write) scheme features backtrace =
        .ok (.generated features files)) ∧
    ((¬∀ f ∈ s.filesToGenerate, P f) →
      r.process (Generator.perFile write) scheme features backtrace =
        .ok (.failed ("Plugin exited with error: \"list index out of range\""
          ++ backtrace .mapEntryTooShort))) := by
  have all := Gives.mapM h
  have files : (Plugin.start r s features).filesToGenerate = s.filesToGenerate := rfl
  have schema : (Plugin.start r s features).schema = s := rfl
  rw [process_eq, Plugin.ofRequest_eq_ok (Schema.files_ne_nil hs wanted) wanted hs, Except.map,
    Generator.perFile, files, schema]
  constructor
  · intro hP
    rw [all.ok hP]
    exact ⟨_, rfl⟩
  · intro hP
    rw [all.error hP]
    rfl

variable (r scheme s) (features : Nat) (backtrace : Error → String)

/-- What the generators answer. -/
structure Answered : Prop where
  listing : (∃ files, r.process Listing.generator scheme features backtrace =
    .ok (.generated features files)) ↔ s.MapsPaired
  failed : ¬s.MapsPaired → r.process Listing.generator scheme features backtrace =
    .ok (.failed ("Plugin exited with error: \"list index out of range\""
      ++ backtrace .mapEntryTooShort))
  references : ∃ files, r.process References.generator scheme features backtrace =
    .ok (.generated features files)

/-- Of what the generators read in a file, nothing is missing but fields of map entries. -/
structure Readable (f : File) : Prop where
  fields : ∀ m ∈ f.allMessages, ∀ x ∈ m.fields, ∀ level owner,
    (∃ ls, Listing.fieldBlock s level owner x = .ok ls) ↔ s.Paired x
  extensions : ∀ x ∈ f.extensions, ∃ ls, Listing.extensionBlock x = .ok ls
  imports : ∀ t ∈ f.dependencies, (s.file? t.fullName).isSome
  references : ∀ b : Buffer,
    ∀ answer ∈ (b.run (References.steps f.name (References.idents s f))).1, ∃ a, answer = .ok a

variable {r scheme s}

/-- Files that make a schema, and at least one of which is to be generated, are answered.  The
answer of the generator of listings is an error exactly if one of the files to generate lists a map
of which the entry has less than two fields; whether the entry is listed, and where it is declared,
does not matter, nor do extensions and oneofs.  The generator of references answers with files. -/
theorem generators_answer (hs : Schema.ofFiles scheme r.files r.filesToGenerate = .ok s) :
    (r.filesToGenerate = [] → ∀ generator response,
      r.process generator scheme features backtrace ≠ .ok response) ∧
    (r.filesToGenerate ≠ [] → Answered r scheme s features backtrace) ∧
    ∀ f ∈ s.files, Readable s f := by
  refine ⟨fun none generator response => process_ne_ok none, fun wanted => ?_, fun f hf => ?_⟩
  · have lists : ∀ f ∈ s.filesToGenerate, Gives (Listing.write s f)
        (∀ m ∈ f.collectMessages, ∀ x ∈ m.fields, s.Paired x) (Listing.buffer s f) := by
      intro f hf
      obtain ⟨d, follows⟩ := Schema.exists_follows hs f (List.mem_of_mem_filter hf)
      exact Listing.write_gives follows
    have refers : ∀ f ∈ s.filesToGenerate,
        Gives (.ok (References.write s f)) True (References.write s f) :=
      fun f _ => .of_eq_ok rfl
    obtain ⟨listed, failed⟩ := process_perFile _ lists hs wanted features backtrace
    obtain ⟨referred, -⟩ :=
      process_perFile (fun s f => .ok (References.write s f)) refers hs wanted features backtrace
    refine ⟨⟨fun ⟨files, hfiles⟩ => ?_, listed⟩, failed, referred fun _ _ => trivial⟩
    by_contra unpaired
    rw [Listing.generator, failed unpaired] at hfiles
    cases hfiles
  · obtain ⟨d, follows⟩ := Schema.exists_follows hs f hf
    constructor
    · intro m hm x hx level owner
      exact Listing.exists_fieldBlock_iff (follows.field_followed hm x hx) level owner
    · intro x hx
      exact Listing.exists_extensionBlock (follows.extension_followed x hx)
    · intro t ht
      obtain ⟨g, hg, -⟩ := (Schema.faithful_of_ofFiles hs).exists_import follows t ht
      rw [hg, Option.isSome_some]
    · exact References.steps_ok f.name _

end Answers

/-- A map of which the entry has no field for values.  The entry is another file's, at top level. -/
def shortFiles : List FileDescriptor := [
  { name := "map.proto", dependencies := ["entry.proto"]
    messages := [
      { name := "Count"
        fields := [
          { name := "words", number := 1, label := some 3, kind := some .message
            typeName := "WordsEntry" }] }] },
  { name := "entry.proto"
    messages := [
      { name := "WordsEntry", isMapEntry := true
        fields := [{ name := "key", number := 1, label := some 1, kind := some .string }] }] }]

/-- The file with the map cannot be listed, and the file with the entry can. -/
theorem generators_answer_shortFiles :
    let : WorkingDirectory := .ofPath ['/']
    process ⟨shortFiles, ["map.proto"], ""⟩ Listing.generator .bundled =
      .ok (.failed "Plugin exited with error: \"list index out of range\"") ∧
    (∃ files, process ⟨shortFiles, ["map.proto"], ""⟩ References.generator .bundled =
      .ok (.generated 1 files)) ∧
    ∃ files, process ⟨shortFiles, ["entry.proto"], ""⟩ Listing.generator .bundled =
      .ok (.generated 1 files) := by
  intro root
  have unpaired : (Schema.ofFiles .bundled shortFiles ["map.proto"]).toOption.any
      fun s => decide ¬s.MapsPaired := by decide +kernel
  have paired : (Schema.ofFiles .bundled shortFiles ["entry.proto"]).toOption.any
      fun s => decide s.MapsPaired := by decide +kernel
  obtain ⟨s, hs⟩ : ∃ s, Schema.ofFiles .bundled shortFiles ["map.proto"] = .ok s :=
    exists_ofFiles_of_isOk (by decide +kernel)
  obtain ⟨s', hs'⟩ : ∃ s, Schema.ofFiles .bundled shortFiles ["entry.proto"] = .ok s :=
    exists_ofFiles_of_isOk (by decide +kernel)
  rw [hs, Except.toOption, Option.any_some, decide_eq_true_iff] at unpaired
  rw [hs', Except.toOption, Option.any_some, decide_eq_true_iff] at paired
  have answered := (@generators_answer root ⟨shortFiles, ["map.proto"], ""⟩ .bundled s
    Plugin.optionalFields (fun _ => "") hs).2.1 (List.cons_ne_nil _ _)
  have answered' := (@generators_answer root ⟨shortFiles, ["entry.proto"], ""⟩ .bundled s'
    Plugin.optionalFields (fun _ => "") hs').2.1 (List.cons_ne_nil _ _)
  exact ⟨answered.failed unpaired, answered.references, answered'.listing.mpr paired⟩

end Request

end Protolink
