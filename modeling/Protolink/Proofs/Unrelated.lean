import Protolink.Proofs.Interleaving
import Protolink.Proofs.Reading
import Protolink.Proofs.Tables

/-!
# Files that nothing refers to

A request may hold more files than the ones to generate and those that they refer to.  If all
references are spelled by full names, files that are left out and not missed make no difference: the
nodes of the other files are the same, and what the generators read beyond the node of a file, the
entries of its maps and the files that it imports, is found in either schema.

`File.ReadsAlike` says what two schemas have to agree on for a file; it is all that the generators
ask a schema for.
-/

namespace Protolink

theorem mapM_congr_left {α β ε : Type} {step step' : α → Except ε β} {as : List α}
    (h : ∀ a ∈ as, step a = step' a) : as.mapM step = as.mapM step' := by
  induction as with
  | nil => rfl
  | cons a as ih =>
    rw [List.forall_mem_cons] at h
    rw [List.mapM_cons, List.mapM_cons, h.1, ih h.2]

/-! ## What the generators ask a schema for -/

/-- Two schemas agree on the map entries of the fields of a file, and on its imports. -/
structure File.ReadsAlike (s s' : Schema) (f : File) : Prop where
  mapEntry? : ∀ m ∈ f.allMessages, ∀ x ∈ m.fields, s.mapEntry? x = s'.mapEntry? x
  file? : ∀ d ∈ f.dependencies, s.file? d.fullName = s'.file? d.fullName

variable {s s' : Schema}

namespace Listing

theorem fieldBlock_congr {level : Nat} {owner : MessageBody} {x : Field}
    (h : s.mapEntry? x = s'.mapEntry? x) :
    fieldBlock s level owner x = fieldBlock s' level owner x := by
  have entryField (i : Nat) : s.entryField? x i = s'.entryField? x i := by
    rw [Schema.entryField?, Schema.entryField?, h]
  have mapLines : mapLines s level x = mapLines s' level x := by
    unfold Listing.mapLines Schema.mapKey? Schema.mapValue?
    rw [entryField 0, entryField 1]
  rw [fieldBlock, fieldBlock, mapLines]

mutual

theorem messageBlock_congr {level : Nat} : ∀ m : Message,
    (∀ n ∈ m.all, ∀ x ∈ n.fields, s.mapEntry? x = s'.mapEntry? x) →
    messageBlock s level m = messageBlock s' level m
  | ⟨body, nested⟩, h => by
    obtain ⟨hbody, hnested⟩ := Message.forall_mem_all_iff.mp h
    have fields : body.fields.mapM (fieldBlock s (level + 2) body) =
        body.fields.mapM (fieldBlock s' (level + 2) body) :=
      mapM_congr_left fun x hx => fieldBlock_congr (hbody x hx)
    rw [messageBlock, messageBlock, fields, nestedBlocks_congr body nested hnested]

theorem nestedBlocks_congr {level : Nat} (body : MessageBody) : ∀ ms : List Message,
    (∀ n ∈ Message.allOf ms, ∀ x ∈ n.fields, s.mapEntry? x = s'.mapEntry? x) →
    nestedBlocks s level body ms = nestedBlocks s' level body ms
  | [], _ => rfl
  | m :: ms, h => by
    rw [Message.allOf, List.forall_mem_append] at h
    rw [nestedBlocks, nestedBlocks, messageBlock_congr m h.1, nestedBlocks_congr body ms h.2]

end

theorem write_congr {f : File} (h : f.ReadsAlike s s') : write s f = write s' f := by
  have messages : f.messages.mapM (messageBlock s 0) = f.messages.mapM (messageBlock s' 0) := by
    refine mapM_congr_left fun m hm => messageBlock_congr m fun n hn => ?_
    refine h.mapEntry? n ?_
    rw [File.allMessages, Message.allOf_eq_flatMap]
    exact List.mem_flatMap_of_mem (List.mem_of_mem_filter hm) hn
  have dependencies : f.dependencies.filterMap (fun d => s.file? d.fullName) =
      f.dependencies.filterMap fun d => s'.file? d.fullName :=
    List.filterMap_congr h.file?
  have entries : entries s f = entries s' f := by
    unfold Listing.entries
    rw [messages, dependencies]
  rw [write, write, text, text, entries]

end Listing

theorem References.write_congr [WorkingDirectory] {f : File} (h : f.ReadsAlike s s') :
    write s f = write s' f := by
  have mentioned : idents s f = idents s' f := by
    unfold idents
    rw [List.filterMap_congr fun d hd => congrArg (·.bind File.firstIdent) (h.file? d hd)]
  rw [write, write, mentioned]

/-! ## Schemas with further files -/

namespace Schema

/-- What is found in a schema is found as well if there are further files. -/
theorem Faithful.message?_of_subset (hs : s'.Faithful) (h : s.files ⊆ s'.files) {fullName : String}
    {m : Message} (hm : s.message? fullName = some m) : s'.message? fullName = some m := by
  obtain ⟨f, hf, hmem⟩ := List.mem_flatMap.mp (List.mem_of_find?_eq_some hm)
  obtain rfl : m.fullName = fullName := by simpa using List.find?_some hm
  exact hs.find?_node Nodes.messages (h hf) hmem

theorem Faithful.file?_of_subset (hs : s'.Faithful) (h : s.files ⊆ s'.files) {name : String}
    {f : File} (hf : s.file? name = some f) : s'.file? name = some f := by
  have mem := List.mem_of_find?_eq_some hf
  obtain rfl : f.name = name := by simpa using List.find?_some hf
  have found := hs.find?_node Nodes.files (h mem) List.mem_cons_self
  have files : s'.files.flatMap Nodes.files.nodes = s'.files := List.flatMap_singleton' _
  rwa [files] at found

/-- A symbol of a message leads to a message. -/
theorem Holds.exists_message {t : Symbol} (h : s.Holds t) (hk : t.kind = .message) :
    ∃ m, s.message? t.fullName = some m := by
  obtain ⟨f, -, -, h⟩ := h
  rw [hk] at h
  obtain ⟨m, -, -, hm⟩ := h
  exact ⟨m, hm⟩

theorem Holds.exists_file {t : Symbol} (h : s.Holds t) (hk : t.kind = .file) :
    ∃ f, s.file? t.fullName = some f := by
  obtain ⟨f, -, -, h⟩ := h
  rw [hk] at h
  exact ⟨f, h.2⟩

/-- The imports of a file whose references were followed are found. -/
theorem Faithful.exists_import (hs : s.Faithful) {d : FileDescriptor} {f : File}
    (hf : f.Follows s d) :
    ∀ t ∈ f.dependencies, ∃ g, s.file? t.fullName = some g ∧ t.fullName = g.name := by
  refine forall_mem_right_of_forall₂ hf.dependencies fun n t ht => ?_
  obtain ⟨hkey, holds⟩ := hs.holds_of_lookup ht.2.1
  obtain ⟨g, hg⟩ := holds.exists_file (congrArg Prod.fst hkey)
  have name : g.name = t.fullName := by simpa using List.find?_some hg
  exact ⟨g, hg, name.symm⟩

/-- A field whose type was followed has the same map entry if there are further files. -/
theorem mapEntry?_of_subset (hs : s'.Faithful) (h : s.files ⊆ s'.files) {scope : String}
    {d : FieldDescriptor} {x : Field} (hx : x.Follows s scope d) :
    s.mapEntry? x = s'.mapEntry? x := by
  obtain ⟨t, ht, -, means⟩ := hx.message
  unfold mapEntry?
  rw [ht]
  cases t with
  | none => rfl
  | some t =>
    have means := means t rfl
    obtain ⟨m, hm⟩ := means.holds.exists_message means.kind_eq
    show Except.ok ((s.message? t.fullName).filter _) = .ok ((s'.message? t.fullName).filter _)
    rw [hm, hs.message?_of_subset h hm]

/-- A file whose references were followed reads alike if there are further files. -/
theorem readsAlike_of_subset (hs₀ : s.Faithful) (hs : s'.Faithful) (h : s.files ⊆ s'.files)
    {d : FileDescriptor} {f : File} (hf : f.Follows s d) : f.ReadsAlike s s' := by
  constructor
  · intro m hm x hx
    obtain ⟨scope, d', follows⟩ := hf.field_followed hm x hx
    exact mapEntry?_of_subset hs h follows
  · intro t ht
    obtain ⟨g, hg, -⟩ := hs₀.exists_import hf t ht
    rw [hg, hs.file?_of_subset h hg]

/-! ## Leaving out files -/

section Sublist

variable (scheme : ImportScheme) {files files' : List FileDescriptor} {wanted : List String}
  (sub : files.Sublist files')

include sub

/-- Files that are missing in a list are registered as if they came last. -/
theorem exists_lookup_declared (distinct : (files'.flatMap FileDescriptor.keys).Nodup)
    (wanted : List String) :
    ∃ news, (declared scheme files' wanted).registry.lookup =
      ((declared scheme files wanted).registry.extend news).lookup := by
  obtain ⟨rest, perm⟩ := sub.exists_perm_append
  have symbols_perm :
      (symbols scheme files').Perm (symbols scheme files ++ symbols scheme rest) := by
    rw [symbols, symbols, symbols, ← List.flatMap_append]
    exact perm.flatMap_right _
  refine ⟨symbols scheme rest, ?_⟩
  rw [declared, declared, ← Registry.extend_append]
  exact Registry.lookup_perm symbols_perm (nodup_key_symbols scheme distinct)

/-- The nodes of files whose references are spelled by full names do not depend on what is declared
besides. -/
theorem linked_node_eq (hc : Coherent files wanted)
    (distinct : (files'.flatMap FileDescriptor.keys).Nodup) (hq : ∀ d ∈ files, d.Qualified) :
    ∀ d ∈ files, (d.node scheme (wanted.contains d.name)).linked
        (declared scheme files' wanted).registry =
      (d.node scheme (wanted.contains d.name)).linked (declared scheme files wanted).registry := by
  intro d hd
  obtain ⟨news, lookup⟩ := exists_lookup_declared scheme sub distinct wanted
  obtain ⟨-, links, -⟩ := (coherent_iff_linkable scheme).mp hc
  rw [File.linked_congr lookup]
  refine (((hq d hd).node scheme _).stable news (d.fresh_node scheme _) (links _ ?_)).2
  exact List.mem_map_of_mem hd

/-- Only files that are not wanted can be left out. -/
theorem filter_wanted_eq (hwanted : ∀ n ∈ wanted, n ∈ files.map (·.name))
    (distinct : (files'.flatMap FileDescriptor.keys).Nodup) :
    files'.filter (fun d => wanted.contains d.name) =
      files.filter fun d => wanted.contains d.name := by
  have names := nodup_names distinct
  have subset : files'.filter (fun d => wanted.contains d.name) ⊆
      files.filter fun d => wanted.contains d.name := by
    intro d hd
    obtain ⟨hd, hw⟩ := List.mem_filter.mp hd
    obtain ⟨e, he, hname⟩ := List.mem_map.mp (hwanted d.name (by simpa using hw))
    obtain rfl := List.inj_on_of_nodup_map names (sub.subset he) hd hname
    exact List.mem_filter.mpr ⟨he, hw⟩
  have nodup := (names.of_map FileDescriptor.name).filter fun d => wanted.contains d.name
  refine ((sub.filter _).eq_of_length_le ?_).symm
  exact (List.subperm_of_subset nodup subset).length_le

end Sublist

/-- Without files there is none to generate. -/
theorem files_ne_nil {scheme : ImportScheme} {files : List FileDescriptor} {wanted : List String}
    (hs : ofFiles scheme files wanted = .ok s) (h : wanted ≠ []) : files ≠ [] := by
  obtain ⟨hc, -⟩ := (ofFiles_eq_ok_iff scheme).mp hs
  obtain ⟨n, hn⟩ := List.exists_mem_of_ne_nil _ h
  intro hnil
  simpa [hnil] using hc.wanted n hn

theorem filesToGenerate_linked (scheme : ImportScheme) (files : List FileDescriptor)
    (wanted : List String) : (declared scheme files wanted).linked.filesToGenerate =
      (files.filter fun d => wanted.contains d.name).map fun d =>
        (d.node scheme (wanted.contains d.name)).linked
          (declared scheme files wanted).registry := by
  rw [filesToGenerate, linked, declared, List.map_map, List.filter_map]
  rfl

/-- Files that are left out and not missed change neither what is generated nor what is read for
it. -/
theorem readsAlike_of_sublist {scheme : ImportScheme} {files files' : List FileDescriptor}
    {wanted : List String} (sub : files.Sublist files') (hq : ∀ d ∈ files, d.Qualified)
    (hs : ofFiles scheme files wanted = .ok s) (hs' : ofFiles scheme files' wanted = .ok s') :
    s'.filesToGenerate = s.filesToGenerate ∧ ∀ f ∈ s.filesToGenerate, f.ReadsAlike s s' := by
  have faithful := faithful_of_ofFiles hs
  have faithful' := faithful_of_ofFiles hs'
  have resolved := exists_follows hs
  obtain ⟨hc, rfl⟩ := (ofFiles_eq_ok_iff scheme).mp hs
  obtain ⟨hc', rfl⟩ := (ofFiles_eq_ok_iff scheme).mp hs'
  have nodes := linked_node_eq scheme sub hc hc'.distinct hq
  constructor
  · rw [filesToGenerate_linked, filesToGenerate_linked,
      filter_wanted_eq sub hc.wanted hc'.distinct]
    exact List.map_congr_left fun d hd => nodes d (List.mem_of_mem_filter hd)
  · have subset : (declared scheme files wanted).linked.files ⊆
        (declared scheme files' wanted).linked.files := by
      intro f hf
      obtain ⟨g, hg, rfl⟩ := List.mem_map.mp hf
      obtain ⟨d, hd, rfl⟩ := List.mem_map.mp hg
      refine List.mem_map.mpr ⟨_, List.mem_map_of_mem (sub.subset hd), ?_⟩
      exact nodes d hd
    have alike : ∀ f ∈ (declared scheme files wanted).linked.files,
        f.ReadsAlike (declared scheme files wanted).linked
          (declared scheme files' wanted).linked := by
      intro f hf
      obtain ⟨d, follows⟩ := resolved f hf
      exact readsAlike_of_subset faithful faithful' subset follows
    exact fun f hf => alike f (List.mem_of_mem_filter hf)

end Schema

/-! ## Responses -/

namespace Request

variable {q q' : Request} {scheme : ImportScheme}

theorem process_perFile_of_sublist [WorkingDirectory]
    {write : Schema → File → Except Error Buffer}
    (hwrite : ∀ s s' f, f.ReadsAlike s s' → write s f = write s' f)
    (hparameter : q'.parameter = q.parameter)
    (hgenerate : q'.filesToGenerate = q.filesToGenerate) (sub : q.files.Sublist q'.files)
    (hq : ∀ d ∈ q.files, d.Qualified) (hs : Schema.ofFiles scheme q.files q.filesToGenerate = .ok s)
    (hs' : Schema.ofFiles scheme q'.files q'.filesToGenerate = .ok s')
    (wanted : q.filesToGenerate ≠ []) (features : Nat) (backtrace : Error → String) :
    ∃ response, q.process (Generator.perFile write) scheme features backtrace = .ok response ∧
      q'.process (Generator.perFile write) scheme features backtrace = .ok response := by
  have files : q.files ≠ [] := Schema.files_ne_nil hs wanted
  have files' : q'.files ≠ [] := fun h => files (List.sublist_nil.mp (h ▸ sub))
  rw [process_eq, process_eq, Plugin.ofRequest_eq_ok files wanted hs,
    Plugin.ofRequest_eq_ok files' (hgenerate ▸ wanted) hs']
  refine ⟨_, rfl, congrArg Except.ok ?_⟩
  have start : Plugin.start q' s' features = { Plugin.start q s features with schema := s' } := by
    rw [Plugin.start, hparameter]
    rfl
  rw [hgenerate] at hs'
  obtain ⟨generate, alike⟩ := Schema.readsAlike_of_sublist sub hq hs hs'
  rw [start]
  refine conclude_perFile_of_mapM ?_ backtrace
  rw [generate]
  exact mapM_congr_left fun f hf => (hwrite s s' f (alike f hf)).symm

/-- Without files to generate there is no response. -/
theorem process_ne_ok [WorkingDirectory] (h : q.filesToGenerate = []) {generator : Generator}
    {features : Nat} {backtrace : Error → String} {response : Response} :
    q.process generator scheme features backtrace ≠ .ok response := by
  obtain ⟨e, he⟩ := (Plugin.exists_ofRequest_eq_error_iff q scheme features).mpr (.inr (.inl h))
  rw [process_eq, he]
  exact nofun

/-- Files that no file to generate needs make no difference.  If two requests differ in files that
one of them leaves out, both make a schema, and all references are spelled by full names, then both
generators give one response to both of them; without files to generate there is none. -/
theorem unrelated_files_ignored [WorkingDirectory] (hparameter : q'.parameter = q.parameter)
    (hgenerate : q'.filesToGenerate = q.filesToGenerate) (sub : q.files.Sublist q'.files)
    (hq : ∀ d ∈ q'.files, d.Qualified)
    (hs : ∃ s, Schema.ofFiles scheme q.files q.filesToGenerate = .ok s)
    (hs' : ∃ s', Schema.ofFiles scheme q'.files q'.filesToGenerate = .ok s') (features : Nat)
    (backtrace : Error → String) : ∀ generator ∈ [Listing.generator, References.generator],
      (∀ response, q'.process generator scheme features backtrace = .ok response ↔
        q.process generator scheme features backtrace = .ok response) ∧
      (q.filesToGenerate ≠ [] → ∃ response,
        q.process generator scheme features backtrace = .ok response ∧
        q'.process generator scheme features backtrace = .ok response) := by
  obtain ⟨s, hs⟩ := hs
  obtain ⟨s', hs'⟩ := hs'
  have qualified : ∀ d ∈ q.files, d.Qualified := fun d hd => hq d (sub.subset hd)
  have answered (write : Schema → File → Except Error Buffer)
      (hwrite : ∀ s s' f, f.ReadsAlike s s' → write s f = write s' f)
      (wanted : q.filesToGenerate ≠ []) := process_perFile_of_sublist hwrite hparameter hgenerate
    sub qualified hs hs' wanted features backtrace
  have both : ∀ generator ∈ [Listing.generator, References.generator],
      q.filesToGenerate ≠ [] → ∃ response,
        q.process generator scheme features backtrace = .ok response ∧
        q'.process generator scheme features backtrace = .ok response := by
    rw [List.forall_mem_cons, List.forall_mem_singleton]
    exact ⟨answered _ fun _ _ _ => Listing.write_congr,
      answered _ fun _ _ _ h => congrArg Except.ok (References.write_congr h)⟩
  intro generator hgenerator
  refine ⟨fun response => ?_, both generator hgenerator⟩
  by_cases wanted : q.filesToGenerate = []
  · exact iff_of_false (process_ne_ok (hgenerate.trans wanted)) (process_ne_ok wanted)
  · obtain ⟨r, hr, hr'⟩ := both generator hgenerator wanted
    rw [hr, hr']

open Schema (tripFiles)

/-- `tripFiles` with a file before them and a file between them. -/
def tripFilesAndOthers : List FileDescriptor :=
  { name := "log.proto", package := "log"
    messages := [{ name := "Entry" }] } ::
  tripFiles.insertIdx 1
    { name := "hotel.proto", package := "hotel", dependencies := ["base.proto"]
      messages := [
        { name := "Room"
          fields := [
            { name := "items", number := 1, label := some 3, kind := some .message
              typeName := ".base.Item" }] }] }

theorem unrelated_files_ignored_tripFiles :
    let : WorkingDirectory := .ofPath ['/']
    (∃ response,
      process ⟨tripFiles, ["trip.proto"], ""⟩ Listing.generator .bundled = .ok response ∧
      process ⟨tripFilesAndOthers, ["trip.proto"], ""⟩ Listing.generator .bundled =
        .ok response) ∧
    ∃ response,
      process ⟨tripFiles, ["trip.proto"], ""⟩ References.generator .bundled = .ok response ∧
      process ⟨tripFilesAndOthers, ["trip.proto"], ""⟩ References.generator .bundled =
        .ok response := by
  intro root
  have sub : tripFiles.Sublist tripFilesAndOthers :=
    .cons _ (.cons_cons _ (.cons _ (.cons_cons _ .slnil)))
  have qualified : ∀ d ∈ tripFilesAndOthers, d.Qualified := by decide +kernel
  have few : ∃ s, Schema.ofFiles .bundled tripFiles ["trip.proto"] = .ok s :=
    exists_ofFiles_of_isOk (by decide +kernel)
  have many : ∃ s, Schema.ofFiles .bundled tripFilesAndOthers ["trip.proto"] = .ok s :=
    exists_ofFiles_of_isOk (by decide +kernel)
  have ignored := @unrelated_files_ignored ⟨tripFiles, ["trip.proto"], ""⟩
    ⟨tripFilesAndOthers, ["trip.proto"], ""⟩ .bundled root rfl rfl sub qualified few many
    Plugin.optionalFields fun _ => ""
  rw [List.forall_mem_cons, List.forall_mem_singleton] at ignored
  exact ⟨ignored.1.2 (List.cons_ne_nil _ _), ignored.2.2 (List.cons_ne_nil _ _)⟩

end Request

end Protolink
