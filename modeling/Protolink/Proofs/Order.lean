import Protolink.Proofs.Resolution

/-!
# The order of files

Files make the same schema in whatever order they come, up to the order in which it lists them: it
has the same tables, and every name leads to the same node with the same references.  And once all
files are declared, it does not matter in which order they are linked: `linkEach_yields` computes
what linking several of them leaves, and for all of them this is what linking them in turn leaves.
-/

namespace Protolink

/-! ## Conditions in any order -/

section Mono

variable {keys keys' : List (DeclKind × String)} (h : ∀ k ∈ keys, k ∈ keys')

include h

theorem Denotes.mono {kind : DeclKind} {scope typeName : String}
    (hd : Denotes keys kind scope typeName) : Denotes keys' kind scope typeName := by
  obtain ⟨c, hc, hk⟩ := hd
  exact ⟨c, hc, h _ hk⟩

theorem FieldDescriptor.Denotes.mono {scope : String} {d : FieldDescriptor}
    (hd : d.Denotes keys scope) : d.Denotes keys' scope := by
  constructor
  · intro kind hkind
    obtain ⟨hn, ht⟩ := hd.target kind hkind
    exact ⟨hn, ht.mono h⟩
  · intro e he hne
    exact (hd.extendee e he hne).mono h

theorem MethodDescriptor.Denotes.mono {scope : String} {d : MethodDescriptor}
    (hd : d.Denotes keys scope) : d.Denotes keys' scope :=
  ⟨⟨hd.input.1, hd.input.2.mono h⟩, ⟨hd.output.1, hd.output.2.mono h⟩⟩

end Mono

/-- Coherence does not depend on the order of the files. -/
theorem Coherent.perm {files files' : List FileDescriptor} {wanted : List String}
    (h : files.Perm files') (hc : Coherent files wanted) : Coherent files' wanted := by
  have keys : (files.flatMap FileDescriptor.keys).Perm (files'.flatMap FileDescriptor.keys) :=
    h.flatMap_right _
  have mem {k : DeclKind × String} : k ∈ files.flatMap FileDescriptor.keys →
      k ∈ files'.flatMap FileDescriptor.keys := keys.mem_iff.mp
  have name {n : String} : n ∈ files.map (·.name) → n ∈ files'.map (·.name) :=
    (h.map _).mem_iff.mp
  constructor
  · exact fun d hd => hc.sound d (h.mem_iff.mpr hd)
  · exact keys.nodup_iff.mp hc.distinct
  · exact fun d hd n hn => name (hc.dependencies d (h.mem_iff.mpr hd) n hn)
  · exact fun d hd f hf => (hc.fields d (h.mem_iff.mpr hd) f hf).mono fun _ => mem
  · exact fun d hd m hm => (hc.methods d (h.mem_iff.mpr hd) m hm).mono fun _ => mem
  · exact fun n hn => name (hc.wanted n hn)

namespace Schema

/-! ## Schemas that differ in order alone -/

/-- Two schemas have the same tables and the same files, with all that is in them, and what a file
name leads to is the same in both. -/
structure SameUpToOrder (s s' : Schema) : Prop where
  lookup : s.registry.lookup = s'.registry.lookup
  files : s.files.Perm s'.files
  file? : ∀ name, s.file? name = s'.file? name

/-- Files of different keys have different names. -/
theorem nodup_names {files : List FileDescriptor}
    (h : (files.flatMap FileDescriptor.keys).Nodup) : (files.map (·.name)).Nodup := by
  have sub : ((files.map (·.name)).map (Prod.mk DeclKind.file)).Sublist
      (files.flatMap FileDescriptor.keys) := by
    rw [List.map_map, List.map_eq_flatMap]
    exact List.Sublist.flatMap_right _ fun d _ => by simp [FileDescriptor.keys]
  exact (sub.nodup h).of_map _

theorem map_name_linked (scheme : ImportScheme) (files : List FileDescriptor)
    (wanted : List String) :
    (declared scheme files wanted).linked.files.map File.name = files.map (·.name) := by
  rw [linked, declared, List.map_map, List.map_map]
  rfl

theorem map_name_filesToGenerate (scheme : ImportScheme) (files : List FileDescriptor)
    (wanted : List String) :
    (declared scheme files wanted).linked.filesToGenerate.map File.name =
      (files.map (·.name)).filter wanted.contains := by
  rw [filesToGenerate, linked, declared, List.map_map, List.filter_map, List.filter_map,
    List.map_map]
  rfl

theorem declared_linked_perm (scheme : ImportScheme) {files files' : List FileDescriptor}
    (wanted : List String) (h : files.Perm files')
    (distinct : (files.flatMap FileDescriptor.keys).Nodup) :
    SameUpToOrder (declared scheme files wanted).linked (declared scheme files' wanted).linked := by
  have lookup : (declared scheme files wanted).registry.lookup =
      (declared scheme files' wanted).registry.lookup :=
    Registry.lookup_perm (h.flatMap_right _) (nodup_key_symbols scheme distinct)
  have files_perm : (declared scheme files wanted).linked.files.Perm
      (declared scheme files' wanted).linked.files := by
    rw [linked, linked, File.linked_congr lookup]
    exact (h.map _).map _
  refine ⟨lookup, files_perm, fun name => ?_⟩
  have names := nodup_names distinct
  rw [← map_name_linked scheme files wanted] at names
  exact find?_perm_of_nodup files_perm names (k := name) fun f => beq_iff_eq

/-! ## Linking file by file -/

/-- What becomes of a schema when the files of some names are linked. -/
def linkedAt (s : Schema) (names : List String) : Schema :=
  { s with files := s.files.map fun f => if f.name ∈ names then f.linked s.registry else f }

theorem linkFile_yields {s : Schema} {name : String} {t : Symbol}
    (h : s.registry.lookup .file name = some t) (ht : t.fullName = name) :
    Yields (linkFile name) s (∀ f ∈ s.files, f.name = name → f.Linkable s.registry)
      (s.linkedAt [name]) := by
  intro s'
  rw [linkFile_eq h]
  exact (linkWanted_yields _ s).congr (by simp [ht]) (by simp [linkedAt, ht]) s'

/-- Files of different names do not get into each other's way. -/
theorem linkedAt_append (s : Schema) {names names' : List String} (h : names.Disjoint names') :
    (s.linkedAt names).linkedAt names' = s.linkedAt (names ++ names') := by
  simp only [linkedAt, List.map_map]
  congr 1
  refine List.map_congr_left fun f _ => ?_
  by_cases hf : f.name ∈ names
  · have hf' : f.name ∉ names' := h hf
    simp [hf, hf']
  · simp [hf]

/-- Linking several files, each once, goes through exactly if all of them can be linked as they are,
for no file looks at the others. -/
theorem linkEach_yields : ∀ (names : List String) (s : Schema), names.Nodup →
    (∀ n ∈ names, ∃ t, s.registry.lookup .file n = some t ∧ t.fullName = n) →
    Yields (names.forM linkFile) s (∀ f ∈ s.files, f.name ∈ names → f.Linkable s.registry)
      (s.linkedAt names)
  | [], s, _, _ => Yields.pure.congr (by simp) (by simp [linkedAt])
  | n :: names, s, hn, h => by
    obtain ⟨⟨t, ht, hname⟩, h⟩ := List.forall_mem_cons.mp h
    obtain ⟨hn, hnodup⟩ := List.nodup_cons.mp hn
    refine ((linkFile_yields ht hname).seq
      (linkEach_yields names (s.linkedAt [n]) hnodup h)).congr ?_ ?_
    · -- A file with one of the other names is still as it was when its turn comes.
      simp only [linkedAt, List.forall_mem_map, List.mem_cons, List.not_mem_nil, or_false]
      constructor
      · rintro ⟨h₁, h₂⟩ f hf (rfl | hm)
        · exact h₁ f hf rfl
        · have hne : f.name ≠ n := fun he => hn (he ▸ hm)
          simpa [hne, hm] using h₂ f hf
      · intro hl
        refine ⟨fun f hf hname => hl f hf (.inl hname), fun f hf hm => ?_⟩
        by_cases hname : f.name = n
        · rw [if_pos hname, File.name_linked, hname] at hm
          exact absurd hm hn
        · rw [if_neg hname] at hm ⊢
          exact hl f hf (.inr hm)
    · exact s.linkedAt_append (List.singleton_disjoint.mpr hn)

theorem linkedAt_eq_linked {s : Schema} {names : List String} (h : ∀ f ∈ s.files, f.name ∈ names) :
    s.linkedAt names = s.linked :=
  congrArg (Schema.mk s.registry) (List.map_congr_left fun f hf => if_pos (h f hf))

/-- The names of declared files lead to these files. -/
theorem exists_lookup_file (scheme : ImportScheme) {files : List FileDescriptor}
    (wanted : List String) (distinct : (files.flatMap FileDescriptor.keys).Nodup) {n : String}
    (hn : n ∈ files.map (·.name)) :
    ∃ t, (declared scheme files wanted).registry.lookup .file n = some t ∧ t.fullName = n := by
  obtain ⟨t, ht⟩ := Option.isSome_iff_exists.mp
    ((isSome_lookup_declared_iff scheme files wanted .file n).mpr
      (FileDescriptor.file_mem_flatMap_keys_iff.mpr hn))
  have key := ((Registry.lookup_eq_some_iff (nodup_key_symbols scheme distinct)).mp ht).2
  exact ⟨t, ht, (Prod.mk.inj key).2⟩

/-- Once files are declared, linking each of them once, in any order, goes through exactly if
linking them in turn does, and leaves the same. -/
theorem linkEach_eq_ok_iff {scheme : ImportScheme} {files : List FileDescriptor}
    {wanted names : List String} (distinct : (files.flatMap FileDescriptor.keys).Nodup)
    (h : names.Perm (files.map (·.name))) (s : Schema) :
    names.forM linkFile (declared scheme files wanted) = .ok () s ↔
      linkAll (declared scheme files wanted) = .ok () s := by
  have name_mem : ∀ f ∈ (declared scheme files wanted).files, f.name ∈ names := by
    intro f hf
    obtain ⟨d, hd, rfl⟩ := List.mem_map.mp hf
    exact h.mem_iff.mpr (List.mem_map_of_mem hd)
  have found : ∀ n ∈ names, ∃ t,
      (declared scheme files wanted).registry.lookup .file n = some t ∧ t.fullName = n :=
    fun n hn => exists_lookup_file scheme wanted distinct (h.mem_iff.mp hn)
  have each := linkEach_yields names (declared scheme files wanted)
    (h.nodup_iff.mpr (nodup_names distinct)) found s
  rw [each, linkAll_yields, linkedAt_eq_linked name_mem]
  exact and_congr_left fun _ => forall₂_congr fun f hf => by simp [name_mem f hf]

/-- Files may come in any order.  In every other one they make a schema just as well, the two
schemas agree up to the order in which they list the files, and the files to generate are the wanted
ones in the order in which they come.  Once all files are declared, they may be linked in any order,
too. -/
theorem ofFiles_perm (scheme : ImportScheme) (wanted : List String)
    {files files' : List FileDescriptor} (h : files.Perm files') :
    ((∃ s, ofFiles scheme files wanted = .ok s) ↔ ∃ s', ofFiles scheme files' wanted = .ok s') ∧
    (∀ s s', ofFiles scheme files wanted = .ok s → ofFiles scheme files' wanted = .ok s' →
      s.SameUpToOrder s' ∧
      s.filesToGenerate.map File.name = (files.map (·.name)).filter wanted.contains ∧
      s'.filesToGenerate.map File.name = (files'.map (·.name)).filter wanted.contains ∧
      s.filesToGenerate.Perm s'.filesToGenerate) ∧
    ∀ s₀, (files.forM fun d => declare scheme (wanted.contains d.name) d) {} = .ok () s₀ →
      ∀ names : List String, names.Perm (files.map (·.name)) →
        ∀ s, names.forM linkFile s₀ = .ok () s ↔ linkAll s₀ = .ok () s := by
  refine ⟨⟨?_, ?_⟩, ?_, ?_⟩
  · rintro ⟨s, hs⟩
    have hc := ((ofFiles_eq_ok_iff scheme).mp hs).1.perm h
    exact ⟨_, (ofFiles_eq_ok_iff scheme).mpr ⟨hc, rfl⟩⟩
  · rintro ⟨s, hs⟩
    have hc := ((ofFiles_eq_ok_iff scheme).mp hs).1.perm h.symm
    exact ⟨_, (ofFiles_eq_ok_iff scheme).mpr ⟨hc, rfl⟩⟩
  · intro s s' hs hs'
    obtain ⟨hc, rfl⟩ := (ofFiles_eq_ok_iff scheme).mp hs
    obtain ⟨-, rfl⟩ := (ofFiles_eq_ok_iff scheme).mp hs'
    have same := declared_linked_perm scheme wanted h hc.distinct
    exact ⟨same, map_name_filesToGenerate scheme files wanted,
      map_name_filesToGenerate scheme files' wanted, same.files.filter _⟩
  · intro s₀ hs₀ names hnames s
    obtain ⟨⟨-, admits⟩, rfl⟩ := (declareAll_yields scheme wanted files {} s₀).mp hs₀
    exact linkEach_eq_ok_iff ((admits_symbols_iff scheme).mp admits) hnames s

theorem ofFiles_perm_shopFiles :
    (∃ s s', ofFiles .bundled shopFiles ["shop.proto"] = .ok s ∧
      ofFiles .bundled shopFiles.reverse ["shop.proto"] = .ok s' ∧ s.SameUpToOrder s') ∧
    ∃ s₀ s, (shopFiles.forM fun d => declare .bundled (["shop.proto"].contains d.name) d) {} =
      .ok () s₀ ∧ linkAll s₀ = .ok () s ∧
      ["base.proto", "shop.proto"].forM linkFile s₀ = .ok () s := by
  obtain ⟨s, hs⟩ := exists_ofFiles_shopFiles
  have h := ofFiles_perm .bundled ["shop.proto"] (List.reverse_perm shopFiles).symm
  obtain ⟨s', hs'⟩ := h.1.mp ⟨s, hs⟩
  obtain ⟨hc, -⟩ := (ofFiles_eq_ok_iff _).mp hs
  have declares := (declareAll_yields .bundled ["shop.proto"] shopFiles {} _).mpr
    ⟨⟨hc.sound, (admits_symbols_iff _).mpr hc.distinct⟩, rfl⟩
  have links := (linkAll_yields (declared .bundled shopFiles ["shop.proto"]) _).mpr
    ⟨(declared_linkable_iff _).mpr fun d hd =>
      ⟨hc.dependencies d hd, hc.fields d hd, hc.methods d hd⟩, rfl⟩
  have names : ["base.proto", "shop.proto"].Perm (shopFiles.map (·.name)) := by decide
  exact ⟨⟨s, s', hs, hs', (h.2.1 s s' hs hs').1⟩,
    _, _, declares, links, (h.2.2 _ declares _ names _).mpr links⟩

end Schema

end Protolink
