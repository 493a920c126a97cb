import Protolink.Proofs.Mentions

/-!
# What output files are called

Output is named after its schema file, with the extension of schema files left out if there is one.
That is what makes names meet: a file without the extension, and the one of the same name with it,
lose their difference.  They are the only files to do so, since a name is found again from what is
left of it, once it is known whether something was left out.

Main statement: `Request.output_names`.  In `Request.exists_shared_output_name`, two files are
written under one name.
-/

namespace Protolink

/-! ## Names without their extension -/

namespace ImportScheme

variable {m n : String}

/-- Whether a file name ends in the extension of schema files. -/
def HasExtension (filename : String) : Prop := ".proto".toList <:+ filename.toList

instance : DecidablePred HasExtension := fun filename =>
  inferInstanceAs (Decidable (".proto".toList <:+ filename.toList))

theorem stem_append (n : String) : stem (n ++ ".proto") = n := by
  rw [stem, Text.dropEnding, String.toList_append, Text.dropEnding?_append, Option.getD_some,
    String.ofList_toList]

theorem stem_of_not (h : ¬HasExtension n) : stem n = n := by
  rw [stem, Text.dropEnding, Text.dropEnding?_of_not h, Option.getD_none, String.ofList_toList]

theorem HasExtension.eq_append (h : HasExtension n) : n = stem n ++ ".proto" := by
  obtain ⟨before, hn⟩ := h
  obtain rfl : String.ofList before ++ ".proto" = n :=
    String.toList_inj.mp (by rw [String.toList_append, String.toList_ofList, hn])
  rw [stem_append]

theorem ne_append (n : String) : n ≠ n ++ ".proto" := by
  intro h
  have lengths := congrArg (fun s : String => s.toList.length) h
  simp at lengths

/-- Two names have one stem in common exactly if one of them is the stem of the other. -/
theorem stem_eq_stem_iff (hne : m ≠ n) : stem m = stem n ↔
    (¬HasExtension m ∧ n = m ++ ".proto") ∨ (¬HasExtension n ∧ m = n ++ ".proto") := by
  constructor
  · intro h
    by_cases hm : HasExtension m <;> by_cases hn : HasExtension n
    · exact absurd (hm.eq_append.trans (h ▸ hn.eq_append.symm)) hne
    · rw [stem_of_not hn] at h
      exact .inr ⟨hn, h ▸ hm.eq_append⟩
    · rw [stem_of_not hm] at h
      exact .inl ⟨hm, h ▸ hn.eq_append⟩
    · rw [stem_of_not hm, stem_of_not hn] at h
      exact absurd h hne
  · rintro (⟨hm, rfl⟩ | ⟨hn, rfl⟩)
    · rw [stem_append, stem_of_not hm]
    · rw [stem_append, stem_of_not hn]

end ImportScheme

open ImportScheme (HasExtension)

theorem outputName_inj {m n suffix : String} :
    outputName m suffix = outputName n suffix ↔ ImportScheme.stem m = ImportScheme.stem n := by
  constructor
  · intro h
    have texts := congrArg String.toList h
    rw [outputName, outputName, String.toList_append, String.toList_append] at texts
    exact String.toList_inj.mp (List.append_cancel_right texts)
  · intro h
    rw [outputName, outputName, h]

/-- Output for different names has different names unless one of them is the other one with the
extension, which the other one does not have. -/
theorem nodup_map_outputName_iff {names : List String} (h : names.Nodup) (suffix : String) :
    (names.map (outputName · suffix)).Nodup ↔
      ∀ n ∈ names, n ++ ".proto" ∈ names → HasExtension n := by
  rw [List.nodup_map_iff_inj_on h]
  constructor
  · intro inj n hn hn'
    by_contra bare
    refine ImportScheme.ne_append n (inj n hn _ hn' (outputName_inj.mpr ?_))
    rw [ImportScheme.stem_append, ImportScheme.stem_of_not bare]
  · intro extended m hm n hn same
    by_contra hne
    rcases (ImportScheme.stem_eq_stem_iff hne).mp (outputName_inj.mp same) with
      ⟨bare, rfl⟩ | ⟨bare, rfl⟩
    · exact bare (extended m hm hn)
    · exact bare (extended n hn hm)

/-! ## What the generators call their buffers -/

theorem Listing.name_of_write {s : Schema} {f : File} {b : Buffer} (h : write s f = .ok b) :
    b.name = outputName f.name ".out" := by
  unfold write at h
  cases ht : text s f with
  | error e =>
    rw [ht] at h
    cases h
  | ok t =>
    rw [ht] at h
    obtain rfl := Except.ok.inj h
    rw [Buffer.foldl_textLine _ rfl]

theorem References.name_write [WorkingDirectory] (s : Schema) (f : File) :
    (References.write s f).name = outputName f.name ".imports.ts" :=
  (Buffer.Tracks.nil _ _).name_run _

/-- If each step keeps a name, all of them do. -/
theorem map_eq_map_of_mapM {α β γ ε : Type} {step : α → Except ε β} {key : β → γ} {key' : α → γ}
    (h : ∀ a b, step a = .ok b → key b = key' a) :
    ∀ {as : List α} {bs : List β}, as.mapM step = .ok bs → bs.map key = as.map key'
  | [], bs, hbs => by
    obtain rfl : [] = bs := Except.ok.inj hbs
    rfl
  | a :: as, bs, hbs => by
    rw [List.mapM_cons] at hbs
    obtain ⟨b, ha, hbs⟩ := Except.bind_eq_ok_iff.mp hbs
    obtain ⟨rest, has, hbs⟩ := Except.bind_eq_ok_iff.mp hbs
    obtain rfl : b :: rest = bs := Except.ok.inj hbs
    rw [List.map_cons, List.map_cons, h a b ha, map_eq_map_of_mapM h has]

namespace Request

variable {r : Request} {scheme : ImportScheme} {s : Schema}

/-- A generator that names each buffer after its file answers with these names. -/
theorem map_name_of_process [WorkingDirectory] (write : Schema → File → Except Error Buffer)
    {suffix : String}
    (named : ∀ f b, write s f = .ok b → b.name = outputName f.name suffix)
    (hs : Schema.ofFiles scheme r.files r.filesToGenerate = .ok s) {features supported : Nat}
    {backtrace : Error → String} {files : List OutputFile}
    (h : r.process (Generator.perFile write) scheme features backtrace =
      .ok (.generated supported files)) :
    files.map (·.name) = (s.filesToGenerate.map File.name).map (outputName · suffix) := by
  have wanted : r.filesToGenerate ≠ [] := fun none => process_ne_ok none h
  have toGenerate : (Plugin.start r s features).filesToGenerate = s.filesToGenerate := rfl
  have schema : (Plugin.start r s features).schema = s := rfl
  rw [process_eq, Plugin.ofRequest_eq_ok (Schema.files_ne_nil hs wanted) wanted hs, Except.map,
    Generator.perFile, toGenerate, schema] at h
  cases hb : s.filesToGenerate.mapM (write s) with
  | error e =>
    rw [hb] at h
    cases h
  | ok buffers =>
    rw [hb] at h
    obtain ⟨-, rfl⟩ := Response.generated.inj (Except.ok.inj h)
    rw [List.map_map, List.map_map]
    exact map_eq_map_of_mapM named hb

/-- The generators, with the endings of what they write. -/
def outputs [WorkingDirectory] : List (Generator × String) :=
  [(Listing.generator, ".out"), (References.generator, ".imports.ts")]

/-- What output files are called, for a request that makes a schema.  There is one of them for each
file to generate, in the order of the files, called after it without the extension of schema files;
and they have different names exactly if no file to generate is called as another one but for the
extension, which is left out once. -/
structure Named (r : Request) (s : Schema) (suffix : String) (files : List OutputFile) : Prop where
  length : files.length = s.filesToGenerate.length
  order : s.filesToGenerate.map File.name =
    (r.files.map (·.name)).filter r.filesToGenerate.contains
  named : files.map (·.name) = s.filesToGenerate.map fun f => outputName f.name suffix
  shared : ∀ m ∈ r.filesToGenerate, ∀ n ∈ r.filesToGenerate, m ≠ n →
    (outputName m suffix = outputName n suffix ↔
      (¬HasExtension m ∧ n = m ++ ".proto") ∨ (¬HasExtension n ∧ m = n ++ ".proto"))
  nodup : (files.map (·.name)).Nodup ↔
    ∀ n ∈ r.filesToGenerate, n ++ ".proto" ∈ r.filesToGenerate → HasExtension n

/-- The files of which both generators answer are named after the files to generate, and no two of
them share their name but for the extension of schema files. -/
theorem output_names [WorkingDirectory]
    (hs : Schema.ofFiles scheme r.files r.filesToGenerate = .ok s)
    (features : Nat) (backtrace : Error → String) :
    ∀ p ∈ outputs, ∀ supported files,
      r.process p.1 scheme features backtrace = .ok (.generated supported files) →
        Named r s p.2 files := by
  obtain ⟨hc, rfl⟩ := (Schema.ofFiles_eq_ok_iff scheme).mp hs
  have order := Schema.map_name_filesToGenerate scheme r.files r.filesToGenerate
  have nodup : ((r.files.map (·.name)).filter r.filesToGenerate.contains).Nodup :=
    (Schema.nodup_names hc.distinct).filter _
  have mem (n : String) : n ∈ (r.files.map (·.name)).filter r.filesToGenerate.contains ↔
      n ∈ r.filesToGenerate := by
    rw [List.mem_filter, List.contains_iff_mem]
    exact and_iff_right_of_imp (hc.wanted n)
  intro p hp supported files h
  have named : files.map (·.name) =
      ((Schema.declared scheme r.files r.filesToGenerate).linked.filesToGenerate.map
        File.name).map (outputName · p.2) := by
    rcases List.mem_cons.mp hp with rfl | hp
    · exact map_name_of_process Listing.write (fun _ _ => Listing.name_of_write) hs h
    · obtain rfl := List.mem_singleton.mp hp
      refine map_name_of_process (fun s f => .ok (References.write s f)) ?_ hs h
      rintro f _ ⟨⟩
      exact References.name_write _ f
  constructor
  · simpa using congrArg List.length named
  · exact order
  · rw [named, List.map_map]
    rfl
  · intro m _ n _ hne
    rw [outputName_inj, ImportScheme.stem_eq_stem_iff hne]
  · rw [named, order, nodup_map_outputName_iff nodup]
    simp only [mem]

/-- The names of the files that are answered. -/
def answered : Except Error Response → List String
  | .ok (.generated _ files) => files.map (·.name)
  | _ => []

theorem exists_of_answered (x : Except Error Response) {names : List String}
    (h : answered x = names) (hne : names ≠ []) :
    ∃ supported files, x = .ok (.generated supported files) ∧ files.map (·.name) = names := by
  rcases x with e | ⟨message⟩ | ⟨supported, files⟩
  · exact absurd h.symm hne
  · exact absurd h.symm hne
  · exact ⟨supported, files, rfl, h⟩

/-- Two files of one name but for an extension, which the shorter name has, too, and a file that is
called as none of them. -/
def twiceExtended : Request where
  files := [{ name := "a.proto.proto" }, { name := "b" }, { name := "a.proto" }]
  filesToGenerate := ["a.proto", "a.proto.proto", "b"]

theorem output_names_twiceExtended :
    letI : WorkingDirectory := .ofPath ['/']
    ∃ s supported files,
      Schema.ofFiles .bundled twiceExtended.files twiceExtended.filesToGenerate = .ok s ∧
      twiceExtended.process Listing.generator .bundled = .ok (.generated supported files) ∧
      files.map (·.name) = ["a.proto.out", "b.out", "a.out"] ∧ (files.map (·.name)).Nodup := by
  obtain ⟨s, hs⟩ : ∃ s, Schema.ofFiles .bundled twiceExtended.files twiceExtended.filesToGenerate =
      .ok s := exists_ofFiles_of_isOk (by decide +kernel)
  have names : letI : WorkingDirectory := .ofPath ['/']
      answered (twiceExtended.process Listing.generator .bundled) =
        ["a.proto.out", "b.out", "a.out"] := by decide +kernel
  obtain ⟨supported, files, h, names⟩ := exists_of_answered _ names (List.cons_ne_nil _ _)
  have named := @output_names _ _ _ (.ofPath ['/']) hs 1 (fun _ => "") _ List.mem_cons_self
    supported files h
  exact ⟨s, supported, files, hs, h, names, named.nodup.mpr (by decide +kernel)⟩

/-- A file with the extension, and one of the same name without it. -/
def lostExtension : Request where
  files := [{ name := "x" }, { name := "x.proto" }]
  filesToGenerate := ["x", "x.proto"]

/-- Both generators answer with two files of one name. -/
theorem exists_shared_output_name :
    letI : WorkingDirectory := .ofPath ['/']
    (∃ supported files, lostExtension.process Listing.generator .bundled =
      .ok (.generated supported files) ∧ ¬(files.map (·.name)).Nodup) ∧
    ∃ supported files, lostExtension.process References.generator .bundled =
      .ok (.generated supported files) ∧ ¬(files.map (·.name)).Nodup := by
  have listed : letI : WorkingDirectory := .ofPath ['/']
      answered (lostExtension.process Listing.generator .bundled) =
        ["x.out", "x.out"] := by decide +kernel
  have referred : letI : WorkingDirectory := .ofPath ['/']
      answered (lostExtension.process References.generator .bundled) =
        ["x.imports.ts", "x.imports.ts"] := by decide +kernel
  obtain ⟨supported, files, h, names⟩ := exists_of_answered _ listed (List.cons_ne_nil _ _)
  obtain ⟨supported', files', h', names'⟩ := exists_of_answered _ referred (List.cons_ne_nil _ _)
  refine ⟨⟨supported, files, h, ?_⟩, supported', files', h', ?_⟩
  · rw [names]
    decide
  · rw [names']
    decide

end Request

end Protolink
