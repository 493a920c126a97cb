import Protolink.Proofs.Interleaving

/-!
# Which files are wanted

A list of wanted files does two things only: while a file is declared its name is looked for in the
list, which makes the flag of its node, and when all is linked the names in the list are looked for
in turn.  Whether files can be declared and linked is the same for every list, and so is all that
they leave but for the flags.

Main statement: `Schema.wanted_selects`.
-/

namespace Protolink.Schema

variable {scheme : ImportScheme} {files : List FileDescriptor} {wanted wanted' : List String}
  {s s' : Schema}

/-- A schema of which no file is to be generated. -/
def unflagged (s : Schema) : Schema :=
  { s with files := s.files.map fun f => { f with generate := false } }

/-- But for the flags, it does not matter what is wanted. -/
theorem unflagged_linked (scheme : ImportScheme) (files : List FileDescriptor)
    (wanted : List String) :
    (declared scheme files wanted).linked.unflagged = (declared scheme files []).linked := by
  rw [unflagged, linked, linked, declared, declared, List.map_map, List.map_map, List.map_map]
  rfl

/-- Lists that name the same files lead to the same flags. -/
theorem declared_wanted_congr (scheme : ImportScheme) (files : List FileDescriptor)
    (h : ∀ n, n ∈ wanted ↔ n ∈ wanted') :
    declared scheme files wanted = declared scheme files wanted' := by
  have contains (n : String) : wanted.contains n = wanted'.contains n := by
    rw [Bool.eq_iff_iff, List.contains_iff_mem, List.contains_iff_mem, h]
  rw [declared, declared]
  simp only [contains]

/-- Files of which some list is accepted are refused exactly for what a list names besides them. -/
theorem ofFiles_eq_of_coherent (hc : Coherent files wanted) (scheme : ImportScheme)
    (wanted' : List String) : ofFiles scheme files wanted' =
      match wanted'.find? fun n => !(files.map (·.name)).contains n with
      | none => .ok (declared scheme files wanted').linked
      | some n => .error (.unknownFileToGenerate n) := by
  have declares := (declareAll_yields scheme wanted' files {} _).mpr
    ⟨⟨hc.sound, (admits_symbols_iff scheme).mpr hc.distinct⟩, rfl⟩
  have links := (linkAll_yields (declared scheme files wanted') _).mpr
    ⟨(declared_linkable_iff scheme).mpr fun d hd =>
      ⟨hc.dependencies d hd, hc.fields d hd, hc.methods d hd⟩, rfl⟩
  have isFile (n : String) :
      ((declared scheme files wanted').linked.registry.lookup .file n).isSome =
        (files.map (·.name)).contains n := by
    rw [Bool.eq_iff_iff, List.contains_iff_mem, ← FileDescriptor.file_mem_flatMap_keys_iff]
    exact isSome_lookup_declared_iff scheme files wanted' .file n
  have passes := ofFiles_eq_of_passes declares links
  simp only [isFile] at passes
  exact passes

/-- The files to generate are those files that are wanted, in the order of the files and each of
them once, and they are all that is wanted. -/
structure Selects (files : List FileDescriptor) (wanted : List String) (s : Schema) : Prop where
  names : s.files.map File.name = files.map (·.name)
  flagged : ∀ f ∈ s.files, f.generate = true ↔ f.name ∈ wanted
  order : s.filesToGenerate = s.files.filter fun f => f.name ∈ wanted
  once : (s.filesToGenerate.map File.name).Nodup
  all : ∀ n, n ∈ s.filesToGenerate.map File.name ↔ n ∈ wanted

theorem selects_of_ofFiles (hs : ofFiles scheme files wanted = .ok s) : Selects files wanted s := by
  obtain ⟨hc, rfl⟩ := (ofFiles_eq_ok_iff scheme).mp hs
  have generated := map_name_filesToGenerate scheme files wanted
  have flagged : ∀ f ∈ (declared scheme files wanted).linked.files,
      f.generate = true ↔ f.name ∈ wanted := by
    intro f hf
    obtain ⟨g, hg, rfl⟩ := List.mem_map.mp hf
    obtain ⟨d, hd, rfl⟩ := List.mem_map.mp hg
    exact List.contains_iff_mem
  constructor
  · exact map_name_linked scheme files wanted
  · exact flagged
  · refine List.filter_congr fun f hf => ?_
    rw [Bool.eq_iff_iff, decide_eq_true_iff]
    exact flagged f hf
  · rw [generated]
    exact (nodup_names hc.distinct).filter _
  · intro n
    rw [generated, List.mem_filter, List.contains_iff_mem]
    exact and_iff_right_of_imp (hc.wanted n)

/-- Two schemas of the same files, for two lists, differ in their flags at most, and not even there
if the lists name the same files. -/
theorem unflagged_of_ofFiles (hs : ofFiles scheme files wanted = .ok s)
    (hs' : ofFiles scheme files wanted' = .ok s') :
    s'.unflagged = s.unflagged ∧ ((∀ n, n ∈ wanted ↔ n ∈ wanted') → s' = s) := by
  obtain ⟨-, rfl⟩ := (ofFiles_eq_ok_iff scheme).mp hs
  obtain ⟨-, rfl⟩ := (ofFiles_eq_ok_iff scheme).mp hs'
  constructor
  · rw [unflagged_linked, unflagged_linked]
  · intro same
    rw [declared_wanted_congr scheme files same]

/-- What is wanted selects the files to generate and makes no other difference.  If files make a
schema for one list of wanted files, then the files to generate are those in the list; another list
leads to the same schema but for the flags, or is refused for its first name that no file has. -/
theorem wanted_selects (hs : ofFiles scheme files wanted = .ok s) :
    Selects files wanted s ∧
    (∀ wanted' s', ofFiles scheme files wanted' = .ok s' → Selects files wanted' s' ∧
      s'.unflagged = s.unflagged ∧ ((∀ n, n ∈ wanted ↔ n ∈ wanted') → s' = s)) ∧
    ∀ wanted',
      ((∀ n ∈ wanted', n ∈ files.map (·.name)) ∧ ∃ s', ofFiles scheme files wanted' = .ok s') ∨
      ∃ before n after, wanted' = before ++ n :: after ∧
        (∀ m ∈ before, m ∈ files.map (·.name)) ∧ n ∉ files.map (·.name) ∧
        ofFiles scheme files wanted' = .error (.unknownFileToGenerate n) := by
  refine ⟨selects_of_ofFiles hs, fun wanted' s' hs' => ?_, fun wanted' => ?_⟩
  · exact ⟨selects_of_ofFiles hs', unflagged_of_ofFiles hs hs'⟩
  · obtain ⟨hc, -⟩ := (ofFiles_eq_ok_iff scheme).mp hs
    rw [ofFiles_eq_of_coherent hc scheme wanted']
    cases h : wanted'.find? fun n => !(files.map (·.name)).contains n with
    | none =>
      refine .inl ⟨fun n hn => ?_, _, rfl⟩
      simpa using List.find?_eq_none.mp h n hn
    | some n =>
      obtain ⟨missing, before, after, rfl, found⟩ := List.find?_eq_some_iff_append.mp h
      refine .inr ⟨before, n, after, rfl, fun m hm => ?_, ?_, rfl⟩
      · simpa using found m hm
      · simpa using missing

/-- The second list names a file twice and out of order, and the third one a file that is not
there. -/
theorem wanted_selects_tripFiles : ∃ s s',
    ofFiles .bundled tripFiles ["trip.proto"] = .ok s ∧
    ofFiles .bundled tripFiles ["trip.proto", "base.proto", "trip.proto"] = .ok s' ∧
    Selects tripFiles ["trip.proto", "base.proto", "trip.proto"] s' ∧ s'.unflagged = s.unflagged ∧
    ofFiles .bundled tripFiles ["trap.proto", "base.proto"] =
      .error (.unknownFileToGenerate "trap.proto") := by
  obtain ⟨s, hs⟩ : ∃ s, ofFiles .bundled tripFiles ["trip.proto"] = .ok s :=
    exists_ofFiles_of_isOk (by decide +kernel)
  obtain ⟨s', hs'⟩ : ∃ s, ofFiles .bundled tripFiles ["trip.proto", "base.proto", "trip.proto"] =
      .ok s := exists_ofFiles_of_isOk (by decide +kernel)
  obtain ⟨-, alike, refused⟩ := wanted_selects hs
  obtain ⟨selects, unflagged, -⟩ := alike _ s' hs'
  refine ⟨s, s', hs, hs', selects, unflagged, ?_⟩
  rcases refused ["trap.proto", "base.proto"] with
    ⟨there, -⟩ | ⟨before, n, after, split, there, -, error⟩
  · exact absurd (there "trap.proto" List.mem_cons_self) (by decide)
  · cases before with
    | nil =>
      obtain ⟨rfl, -⟩ := List.cons.inj split
      exact error
    | cons m before =>
      obtain ⟨rfl, -⟩ := List.cons.inj split
      exact absurd (there "trap.proto" List.mem_cons_self) (by decide)

end Protolink.Schema
