import Protolink.Proofs.Order
import Protolink.Schema.History

/-!
# Linking before everything is declared

A name with a leading dot is looked up as it is, so once it means something, it means the same
however the registry grows.  Files all of whose names are spelled like this can therefore be linked
early: a link that goes through leaves what it would leave at the end.  `Session.two_passes` says so
of every order in which files are declared and linked.
-/

namespace Protolink

/-! ## Names that mean the same ever after -/

/-- A type name that is a full name, if it is given at all. -/
def Name.Qualified (typeName : String) : Prop := typeName ≠ "" → typeName.toList.head? = some '.'

variable {r : Registry Symbol} (news : List Symbol)

namespace Registry

/-- What is registered stays registered. -/
theorem lookup_stable {kind : DeclKind} {key : String} (h : (r.lookup kind key).isSome) :
    (r.extend news).lookup kind key = r.lookup kind key := by
  obtain ⟨t, ht⟩ := Option.isSome_iff_exists.mp h
  rw [lookup_extend, ht, Option.some_or]

theorem resolve_stable {kind : DeclKind} {scope typeName : String}
    (hq : Name.Qualified typeName) (hn : typeName ≠ "")
    (h : (r.resolve [kind] scope typeName).isSome) :
    (r.extend news).resolve [kind] scope typeName = r.resolve [kind] scope typeName := by
  rw [resolve_qualified _ _ _ (hq hn)] at h ⊢
  rw [resolve_qualified _ _ _ (hq hn), lookup_stable news h]

end Registry

/-! ## Nodes that are linked the same ever after -/

namespace Field

/-- A field whose references are spelled by full names. -/
structure Qualified (f : Field) : Prop where
  typeName : Name.Qualified f.typeName
  extendee : ∀ e ∈ f.extendeeName, Name.Qualified e

theorem Qualified.stable {f : Field} (hq : f.Qualified) (h : f.Resolves r) :
    f.Resolves (r.extend news) ∧ f.linked (r.extend news) = f.linked r := by
  have target (kind : DeclKind) (hk : f.kind.targetKind? = some kind) :
      (r.extend news).resolve [kind] f.scope f.typeName = r.resolve [kind] f.scope f.typeName :=
    Registry.resolve_stable news hq.typeName (h.target kind hk).1 (h.target kind hk).2
  have extendee (e : String) (he : e ∈ f.extendeeName) (hne : e ≠ "") :
      (r.extend news).resolve [.message] f.scope e = r.resolve [.message] f.scope e :=
    Registry.resolve_stable news (hq.extendee e he) hne (h.extendee e he hne)
  have targetSymbol : f.targetSymbol? (r.extend news) = f.targetSymbol? r := by
    unfold targetSymbol?
    cases hk : f.kind.targetKind? with
    | none => rfl
    | some kind => exact target kind hk
  have extendedSymbol : f.extendedSymbol? (r.extend news) = f.extendedSymbol? r := by
    unfold extendedSymbol?
    refine Option.bind_congr fun e he => ?_
    obtain ⟨he, hne⟩ := Option.filter_eq_some_iff.mp he
    exact extendee e he (by simpa using hne)
  refine ⟨⟨fun kind hk => ⟨(h.target kind hk).1, ?_⟩, fun e he hne => ?_⟩, ?_⟩
  · rw [target kind hk]
    exact (h.target kind hk).2
  · rw [extendee e he hne]
    exact h.extendee e he hne
  · rw [linked, linked, targetSymbol, extendedSymbol]

end Field

namespace MessageBody

def Qualified (b : MessageBody) : Prop := ∀ f ∈ b.fields ++ b.extensions, f.Qualified

theorem Qualified.stable {b : MessageBody} (hq : b.Qualified) (h : b.Linkable r) :
    b.Linkable (r.extend news) ∧ b.linked (r.extend news) = b.linked r := by
  obtain ⟨hfields, hextensions⟩ := List.forall_mem_append.mp hq
  have fields (f : Field) (hf : f ∈ b.fields) := (hfields f hf).stable news (h.fields f hf).2
  have extensions (x : Field) (hx : x ∈ b.extensions) :=
    (hextensions x hx).stable news (h.extensions x hx).2
  refine ⟨⟨fun f hf => ?_, fun x hx => ?_⟩, ?_⟩
  · exact ⟨(h.fields f hf).1, (fields f hf).1⟩
  · exact ⟨(h.extensions x hx).1, (extensions x hx).1⟩
  · rw [linked, linked, List.map_congr_left fun f hf => (fields f hf).2,
      List.map_congr_left fun x hx => (extensions x hx).2]

end MessageBody

namespace Message

mutual

theorem mapListed_congr {g g' : MessageBody → MessageBody} : ∀ m : Message,
    (∀ n ∈ m.all, g n.toMessageBody = g' n.toMessageBody) → m.mapListed g = m.mapListed g'
  | ⟨body, nested⟩, h => by
    obtain ⟨hbody, hnested⟩ := forall_mem_all_iff.mp h
    rw [mapListed, mapListed, mapNested_congr body nested hnested]
    exact congrArg (Message.mk · _) hbody

theorem mapNested_congr {g g' : MessageBody → MessageBody} (body : MessageBody) :
    ∀ ms : List Message, (∀ n ∈ allOf ms, g n.toMessageBody = g' n.toMessageBody) →
    mapNested g body ms = mapNested g' body ms
  | [], _ => rfl
  | m :: ms, h => by
    rw [allOf, List.forall_mem_append] at h
    rw [mapNested, mapNested, mapListed_congr m h.1, mapNested_congr body ms h.2]

end

theorem stable {m : Message} (hm : m.Fresh) (hq : ∀ n ∈ m.all, n.Qualified)
    (h : m.ForListed (MessageBody.Linkable r)) :
    m.ForListed (MessageBody.Linkable (r.extend news)) ∧
      m.mapListed (MessageBody.linked (r.extend news)) = m.mapListed (MessageBody.linked r) := by
  rw [forListed_iff _ m hm] at h ⊢
  have bodies (n : Message) (hn : n ∈ m.all) := (hq n hn).stable news (h n hn)
  exact ⟨fun n hn => (bodies n hn).1, mapListed_congr m fun n hn => (bodies n hn).2⟩

end Message

namespace Method

structure Qualified (m : Method) : Prop where
  input : Name.Qualified m.inputName
  output : Name.Qualified m.outputName

theorem Qualified.stable {m : Method} {scope : String} (hq : m.Qualified) (h : m.Linkable r scope) :
    m.Linkable (r.extend news) scope ∧ m.linked (r.extend news) scope = m.linked r scope := by
  have input := Registry.resolve_stable news hq.input h.input.1 h.input.2
  have output := Registry.resolve_stable news hq.output h.output.1 h.output.2
  constructor
  · exact ⟨h.open_input, h.open_output, ⟨h.input.1, input ▸ h.input.2⟩,
      h.output.1, output ▸ h.output.2⟩
  · rw [linked, linked, input, output]

end Method

namespace File

/-- A file in which all references are spelled by full names. -/
structure Qualified (f : File) : Prop where
  messages : ∀ m ∈ f.ownMessages, ∀ n ∈ m.all, n.Qualified
  services : ∀ s ∈ f.ownServices, ∀ m ∈ s.methods, m.Qualified
  extensions : ∀ x ∈ f.extensions, x.Qualified

/-- A file whose references are spelled by full names can be linked at any time after it can be
linked for the first time, with the same result. -/
theorem Qualified.stable {f : File} (hf : f.Fresh) (hq : f.Qualified) (h : f.Linkable r) :
    f.Linkable (r.extend news) ∧ f.linked (r.extend news) = f.linked r := by
  have dependencies (n : String) (hn : n ∈ f.dependencyNames) :=
    Registry.lookup_stable news (h.dependencies n hn)
  have messages (m : Message) (hm : m ∈ f.ownMessages) (hc : m.isComplete) :=
    Message.stable news (hf.messages m hm) (hq.messages m hm) (h.messages m hm hc)
  have methods (s : Service) (hs : s ∈ f.ownServices) (hc : s.isComplete) (m : Method)
      (hm : m ∈ s.methods) := (hq.services s hs m hm).stable news (h.services s hs hc m hm)
  have extensions (x : Field) (hx : x ∈ f.extensions) :=
    (hq.extensions x hx).stable news (h.extensions x hx).2
  constructor
  · constructor
    · intro n hn
      rw [dependencies n hn]
      exact h.dependencies n hn
    · exact fun m hm hc => (messages m hm hc).1
    · exact fun s hs hc m hm => (methods s hs hc m hm).1
    · exact fun x hx => ⟨(h.extensions x hx).1, (extensions x hx).1⟩
  · have linkedMessages : (f.linked (r.extend news)).ownMessages = (f.linked r).ownMessages := by
      refine List.map_congr_left fun m hm => ?_
      by_cases hc : m.isComplete
      · rw [if_pos hc, if_pos hc, (messages m hm hc).2]
      · rw [if_neg hc, if_neg hc]
    have linkedServices : (f.linked (r.extend news)).ownServices = (f.linked r).ownServices := by
      refine List.map_congr_left fun s hs => ?_
      rw [if_pos (hf.services s hs), if_pos (hf.services s hs), Service.linked, Service.linked,
        List.map_congr_left fun m hm => (methods s hs (hf.services s hs) m hm).2]
    have linkedExtensions : (f.linked (r.extend news)).extensions = (f.linked r).extensions :=
      List.map_congr_left fun x hx => (extensions x hx).2
    have linkedDependencies :
        (f.linked (r.extend news)).dependencies = (f.linked r).dependencies :=
      congrArg (f.dependencies ++ ·) (List.filterMap_congr dependencies)
    show { f with
      dependencies := (f.linked (r.extend news)).dependencies
      ownMessages := (f.linked (r.extend news)).ownMessages
      ownServices := (f.linked (r.extend news)).ownServices
      extensions := (f.linked (r.extend news)).extensions } = f.linked r
    rw [linkedDependencies, linkedMessages, linkedServices, linkedExtensions]
    rfl

end File

/-! ## Descriptors -/

@[mk_iff]
structure FieldDescriptor.Qualified (d : FieldDescriptor) : Prop where
  typeName : Name.Qualified d.typeName
  extendee : ∀ e ∈ d.extendee, Name.Qualified e

@[mk_iff]
structure MethodDescriptor.Qualified (d : MethodDescriptor) : Prop where
  input : Name.Qualified d.input
  output : Name.Qualified d.output

/-- A file whose type names, at any depth, are full names or not given. -/
@[mk_iff]
structure FileDescriptor.Qualified (d : FileDescriptor) : Prop where
  fields : ∀ f ∈ d.allFields, f.2.Qualified
  methods : ∀ m ∈ d.allMethods, m.2.Qualified

instance : DecidablePred Name.Qualified := fun typeName =>
  inferInstanceAs (Decidable (typeName ≠ "" → typeName.toList.head? = some '.'))

instance : DecidablePred FieldDescriptor.Qualified := fun d =>
  decidable_of_iff _ d.qualified_iff.symm

instance : DecidablePred MethodDescriptor.Qualified := fun d =>
  decidable_of_iff _ d.qualified_iff.symm

instance : DecidablePred FileDescriptor.Qualified := fun d =>
  decidable_of_iff _ d.qualified_iff.symm

namespace Source

variable (src : Source)

theorem fieldNode_qualified_iff (parent : Option String) (oneof : Option Nat) (path : List Int)
    (d : FieldDescriptor) : (src.fieldNode parent oneof path d).Qualified ↔ d.Qualified :=
  ⟨fun h => ⟨h.typeName, h.extendee⟩, fun h => ⟨h.typeName, h.extendee⟩⟩

theorem methodNode_qualified_iff (service : String) (path : List Int) (i : Nat)
    (d : MethodDescriptor) : (src.methodNode service path i d).Qualified ↔ d.Qualified :=
  ⟨fun h => ⟨h.input, h.output⟩, fun h => ⟨h.input, h.output⟩⟩

theorem bodyNode_qualified_iff (parent : Option String) (path : List Int) (d : MessageDecl) :
    (src.bodyNode parent path d).Qualified ↔ ∀ f ∈ d.fields ++ d.extensions, f.Qualified := by
  simp only [MessageBody.Qualified, bodyNode_fields, bodyNode_extensions, memberNode,
    List.forall_mem_append, List.forall_mem_map, fieldNode_qualified_iff]
  exact and_congr (forall_mem_zipIdx d.fields 0) (forall_mem_zipIdx d.extensions 0)

theorem messageNode_qualified_iff (parent : Option String) (path : List Int)
    (d : MessageDescriptor) :
    (∀ n ∈ (src.messageNode parent path d).all, n.Qualified) ↔
      ∀ p ∈ d.all (src.scope parent), ∀ f ∈ p.2.fields ++ p.2.extensions, f.Qualified :=
  forall_mem_all_messageNode
    (Q := fun p => ∀ f ∈ p.2.fields ++ p.2.extensions, f.Qualified)
    src.bodyNode_qualified_iff parent path d

end Source

/-- The node of a file is spelled like the file. -/
theorem FileDescriptor.Qualified.node {d : FileDescriptor} (hd : d.Qualified)
    (scheme : ImportScheme) (generate : Bool) : (d.node scheme generate).Qualified := by
  constructor
  · simp only [FileDescriptor.node, List.forall_mem_map, Source.messageNode_qualified_iff]
    intro m hm p hp f hf
    have hp : p ∈ d.allMessages := by
      rw [allMessages, MessageDescriptor.allOf_eq_flatMap]
      exact List.mem_flatMap.mpr ⟨m.1, List.fst_mem_of_mem_zipIdx hm, hp⟩
    exact hd.fields (p.1, f)
      (List.mem_append_left _ (List.mem_flatMap.mpr ⟨p, hp, List.mem_map_of_mem hf⟩))
  · simp only [FileDescriptor.node, Source.serviceNode, List.forall_mem_map,
      Source.methodNode_qualified_iff]
    intro s hs m hm
    exact hd.methods (Name.join d.package s.1.name, m.1) (List.mem_flatMap.mpr
      ⟨s.1, List.fst_mem_of_mem_zipIdx hs, List.mem_map_of_mem (List.fst_mem_of_mem_zipIdx hm)⟩)
  · simp only [FileDescriptor.node, List.forall_mem_map, Source.fieldNode_qualified_iff]
    intro x hx
    exact hd.fields (d.package, x.1)
      (List.mem_append_right _ (List.mem_map_of_mem (List.fst_mem_of_mem_zipIdx hx)))

/-! ## Sessions -/

namespace Schema

/-- Steps that declare files and link files that are declared, each file at most once: the files in
the order in which they are declared, the names of those that are linked, and the steps. -/
inductive Session (wanted : List String) :
    List FileDescriptor → List String → List Step → Prop
  | start : Session wanted [] [] []
  | declare {files linked steps} (d : FileDescriptor) (h : Session wanted files linked steps) :
    Session wanted (files ++ [d]) linked (steps ++ [.declare (wanted.contains d.name) d])
  | link {files linked steps} (name : String) (h : Session wanted files linked steps)
    (declared : name ∈ files.map (·.name)) (once : name ∉ linked) :
    Session wanted files (linked ++ [name]) (steps ++ [.link name])

variable {scheme : ImportScheme} {wanted linked : List String} {files : List FileDescriptor}
  {steps : List Step} {s s' : Schema}

theorem Session.linked_subset (h : Session wanted files linked steps) :
    ∀ n ∈ linked, n ∈ files.map (·.name) := by
  induction h with
  | start => nofun
  | declare d h ih =>
    intro n hn
    rw [List.map_append]
    exact List.mem_append_left _ (ih n hn)
  | link name h declared once ih =>
    rw [List.forall_mem_append]
    exact ⟨ih, by simpa using declared⟩

theorem declared_append (scheme : ImportScheme) (wanted : List String)
    (files : List FileDescriptor) (d : FileDescriptor) :
    declared scheme (files ++ [d]) wanted =
      ⟨(declared scheme files wanted).registry.extend (d.symbols (d.source scheme).origin),
        (declared scheme files wanted).files ++ [d.node scheme (wanted.contains d.name)]⟩ := by
  simp [declared, symbols, Registry.extend_append]

/-- A session has left what declaring its files leaves, with those files linked that it linked; and
these files can still be linked as far as the registry has grown since. -/
structure Reaches (scheme : ImportScheme) (wanted : List String) (files : List FileDescriptor)
    (linked : List String) (s : Schema) : Prop where
  sound : ∀ d ∈ files, d.Sound
  distinct : (files.flatMap FileDescriptor.keys).Nodup
  linkable : ∀ f ∈ (declared scheme files wanted).files, f.name ∈ linked →
    f.Linkable (declared scheme files wanted).registry
  eq : s = (declared scheme files wanted).linkedAt linked

namespace Reaches

/-- What is linked already stays as it is when a file is declared. -/
theorem declare (h : Reaches scheme wanted files linked s) (hq : ∀ d ∈ files, d.Qualified)
    (hlinked : ∀ n ∈ linked, n ∈ files.map (·.name)) {d : FileDescriptor}
    (hs : Schema.declare scheme (wanted.contains d.name) d s = .ok () s') :
    Reaches scheme wanted (files ++ [d]) linked s' := by
  obtain ⟨sound, distinct, linkable, rfl⟩ := h
  obtain ⟨⟨hsound, admits⟩, rfl⟩ := (declare_yields scheme _ d _ s').mp hs
  let news := d.symbols (d.source scheme).origin
  have stable (f : File) (hf : f ∈ (declared scheme files wanted).files) (hn : f.name ∈ linked) :
      f.Linkable ((declared scheme files wanted).registry.extend news) ∧
      f.linked ((declared scheme files wanted).registry.extend news) =
        f.linked (declared scheme files wanted).registry := by
    obtain ⟨e, he, rfl⟩ := List.mem_map.mp hf
    exact ((hq e he).node scheme _).stable news (e.fresh_node scheme _) (linkable _ hf hn)
  have distinct' : ((files ++ [d]).flatMap FileDescriptor.keys).Nodup := by
    rw [← admits_symbols_iff scheme, symbols, List.flatMap_append, List.flatMap_singleton,
      Registry.admits_append]
    exact ⟨(admits_symbols_iff scheme).mpr distinct, admits⟩
  have unlinked : d.name ∉ linked := by
    intro hd
    have names := nodup_names distinct'
    rw [List.map_append, List.nodup_append'] at names
    exact names.2.2 (hlinked _ hd) (List.mem_singleton_self _)
  constructor
  · rw [List.forall_mem_append]
    exact ⟨sound, by simpa using hsound⟩
  · exact distinct'
  · rw [declared_append, List.forall_mem_append]
    refine ⟨fun f hf hn => (stable f hf hn).1, ?_⟩
    intro f hf hn
    obtain rfl := List.mem_singleton.mp hf
    exact absurd hn unlinked
  · rw [declared_append, linkedAt, linkedAt, List.map_append]
    congr 2
    · refine List.map_congr_left fun f hf => ?_
      by_cases hn : f.name ∈ linked
      · rw [if_pos hn, if_pos hn, (stable f hf hn).2]
      · rw [if_neg hn, if_neg hn]
    · have hname : (d.node scheme (wanted.contains d.name)).name ∉ linked := unlinked
      rw [List.map_singleton, if_neg hname]

theorem link (h : Reaches scheme wanted files linked s) {name : String}
    (declared : name ∈ files.map (·.name)) (once : name ∉ linked)
    (hs : linkFile name s = .ok () s') : Reaches scheme wanted files (linked ++ [name]) s' := by
  obtain ⟨sound, distinct, linkable, rfl⟩ := h
  obtain ⟨t, ht, hname⟩ := exists_lookup_file scheme wanted distinct declared
  obtain ⟨hl, rfl⟩ := (linkFile_yields (s := (Schema.declared scheme files wanted).linkedAt linked)
    ht hname s').mp hs
  refine ⟨sound, distinct, fun f hf hn => ?_, linkedAt_append _ (by simpa using once)⟩
  rcases List.mem_append.mp hn with hn | hn
  · exact linkable f hf hn
  · -- The file is found as it was declared, because it was not linked before.
    obtain rfl := List.mem_singleton.mp hn
    have hf' : f ∈ ((Schema.declared scheme files wanted).linkedAt linked).files :=
      List.mem_map.mpr ⟨f, hf, if_neg once⟩
    exact hl f hf' rfl

end Reaches

/-- A session whose steps all go through. -/
theorem Session.reaches (h : Session wanted files linked steps)
    (hq : ∀ d ∈ files, d.Qualified) (hs : steps.forM (perform scheme) {} = .ok () s) :
    Reaches scheme wanted files linked s := by
  induction h generalizing s with
  | start =>
    obtain ⟨-, rfl⟩ := (Yields.pure s).mp hs
    exact ⟨nofun, List.nodup_nil, nofun, rfl⟩
  | declare d h ih =>
    rw [List.forall_mem_append] at hq
    obtain ⟨t, ht, hs⟩ := Yields.forM_append_eq_ok_iff.mp hs
    exact (ih hq.1 ht).declare hq.1 h.linked_subset hs
  | link name h declared once ih =>
    obtain ⟨t, ht, hs⟩ := Yields.forM_append_eq_ok_iff.mp hs
    exact (ih hq ht).link declared once hs

/-- Whether all wanted files are there, or else the first that is not. -/
theorem checkWanted_eq (wanted : List String) (s t : Schema) :
    (wanted.forM fun name => if (t.registry.lookup .file name).isSome then pure ()
        else throw (.unknownFileToGenerate name) : EStateM Error Schema Unit) s =
      match wanted.find? fun n => !(t.registry.lookup .file n).isSome with
      | none => .ok () s
      | some n => .error (.unknownFileToGenerate n) s := by
  induction wanted with
  | nil => rfl
  | cons n wanted ih =>
    change EStateM.bind _ _ s = _
    unfold EStateM.bind
    by_cases h : (t.registry.lookup .file n).isSome
    · rw [List.find?_cons_of_neg (by simp [h]), ← ih]
      simp only [h, if_true]
      rfl
    · rw [List.find?_cons_of_pos (by simp [h])]
      simp only [h]
      rfl

/-- Files that declare and link as they should make a schema if the wanted ones are among them. -/
theorem ofFiles_eq_of_passes
    (hd : (files.forM fun d => declare scheme (wanted.contains d.name) d) {} = .ok () s)
    (hl : linkAll s = .ok () s') : ofFiles scheme files wanted =
      match wanted.find? fun n => !(s'.registry.lookup .file n).isSome with
      | none => .ok s'
      | some n => .error (.unknownFileToGenerate n) := by
  have check : assemble scheme files wanted {} = (wanted.forM fun name =>
      if (s'.registry.lookup .file name).isSome then pure ()
        else throw (.unknownFileToGenerate name) : EStateM Error Schema Unit) s' := by
    change EStateM.bind _ _ ({} : Schema) = _
    unfold EStateM.bind
    rw [hd]
    change EStateM.bind _ _ s = _
    unfold EStateM.bind
    rw [hl]
    rfl
  rw [ofFiles, check, checkWanted_eq]
  cases wanted.find? fun n => !(s'.registry.lookup .file n).isSome <;> rfl

/-- Files whose references are spelled by full names may be declared and linked in any order.  If
every step goes through, a session that links all of its files leaves what the two passes over the
files leave in the order in which they were declared; and this is the schema of the files unless a
wanted one is missing, which only the passes look at. -/
theorem Session.two_passes (h : Session wanted files linked steps)
    (all : ∀ d ∈ files, d.name ∈ linked) (hq : ∀ d ∈ files, d.Qualified)
    (hs : steps.forM (perform scheme) {} = .ok () s) :
    (do files.forM fun d => Schema.declare scheme (wanted.contains d.name) d
        linkAll) {} = .ok () s ∧
    ofFiles scheme files wanted =
      match wanted.find? fun n => !(files.map (·.name)).contains n with
      | none => .ok s
      | some n => .error (.unknownFileToGenerate n) := by
  obtain ⟨sound, distinct, linkable, rfl⟩ := h.reaches hq hs
  have name_mem : ∀ f ∈ (declared scheme files wanted).files, f.name ∈ linked := by
    intro f hf
    obtain ⟨d, hd, rfl⟩ := List.mem_map.mp hf
    exact all d hd
  rw [linkedAt_eq_linked name_mem]
  have declares := (declareAll_yields scheme wanted files {} _).mpr
    ⟨⟨sound, (admits_symbols_iff scheme).mpr distinct⟩, rfl⟩
  have links := (linkAll_yields (declared scheme files wanted) _).mpr
    ⟨fun f hf => linkable f hf (name_mem f hf), rfl⟩
  refine ⟨Yields.bind_eq_ok_iff.mpr ⟨(), _, declares, links⟩, ?_⟩
  rw [ofFiles_eq_of_passes declares links]
  have isFile (n : String) : ((declared scheme files wanted).linked.registry.lookup .file n).isSome
      = (files.map (·.name)).contains n := by
    rw [Bool.eq_iff_iff, List.contains_iff_mem, ← FileDescriptor.file_mem_flatMap_keys_iff]
    exact isSome_lookup_declared_iff scheme files wanted .file n
  simp only [isFile]

/-- Two files of which the second refers to the first. -/
def tripFiles : List FileDescriptor := [
  { name := "base.proto", package := "base"
    messages := [{ name := "Item" }] },
  { name := "trip.proto", package := "trip", dependencies := ["base.proto"]
    messages := [
      { name := "Leg"
        fields := [
          { name := "items", number := 1, label := some 3, kind := some .message
            typeName := ".trip.Leg.ItemsEntry" }]
        nested := [
          { name := "ItemsEntry", isMapEntry := true
            fields := [
              { name := "key", number := 1, label := some 1, kind := some .string },
              { name := "value", number := 2, label := some 1, kind := some .message
                typeName := ".base.Item" }] }] }]
    services := [
      { name := "Trips"
        methods := [{ name := "Book", input := ".trip.Leg", output := ".base.Item" }] }] }]

/-- The first file is linked before the second one is there. -/
def tripSession : List Step := [
  .declare false tripFiles[0], .link "base.proto",
  .declare true tripFiles[1], .link "trip.proto"]

theorem Session.two_passes_tripSession :
    ∃ s, tripSession.forM (perform .bundled) {} = .ok () s ∧
      ofFiles .bundled tripFiles ["trip.proto"] = .ok s := by
  have session : Session ["trip.proto"] tripFiles ["base.proto", "trip.proto"] tripSession :=
    .link "trip.proto" (.declare tripFiles[1]
      (.link "base.proto" (.declare tripFiles[0] .start) (by decide) (by decide)))
      (by decide) (by decide)
  have goes : ∃ s, tripSession.forM (perform .bundled) {} = .ok () s := by
    have ok : (match tripSession.forM (perform .bundled) {} with
      | .ok _ _ => true | .error _ _ => false) = true := by decide +kernel
    cases h : tripSession.forM (perform .bundled) {} with
    | ok u s => exact ⟨s, rfl⟩
    | error e s => simp [h] at ok
  obtain ⟨s, hs⟩ := goes
  have passes := session.two_passes (by decide) (by decide +kernel) hs
  exact ⟨s, hs, passes.2⟩

end Schema

end Protolink
