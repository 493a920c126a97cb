import Protolink.Proofs.Drafting
import Protolink.Proofs.Tables

/-!
# References are written once

A session declares files, links them and registers declarations again, in any order, and some of its
steps fail half-way.  Whatever happens, a reference that reads once reads the same from then on: a
step either adds blank nodes or fills in what is open (`Schema.Advances`), and a session is a chain
of steps.  The slots of one node are never found in a state that a single link that succeeds or
fails could not leave: they are coherent from the time when the node is made.

Main statement: `Schema.references_written_once`.
-/

namespace Protolink

/-- What is related to two lists in a row falls into two parts. -/
theorem exists_append_of_forall₂ {α β : Type} {R : α → β → Prop} {as as' : List α} {bs : List β}
    (h : List.Forall₂ R (as ++ as') bs) :
    ∃ cs cs', bs = cs ++ cs' ∧ List.Forall₂ R as cs ∧ List.Forall₂ R as' cs' := by
  have first := List.forall₂_take as.length h
  have second := List.forall₂_drop as.length h
  rw [List.take_left] at first
  rw [List.drop_left] at second
  exact ⟨_, _, (List.take_append_drop as.length bs).symm, first, second⟩

namespace File

/-- All fields, extensions and methods of the file are coherent, at any depth. -/
structure Coherent (f : File) : Prop where
  fields : ∀ p ∈ f.allFields, p.2.Coherent
  methods : ∀ p ∈ f.allMethods, p.2.Coherent

/-- The files are the same but for references that are open in the first one: node by node, in
their order. -/
structure Keeps (f g : File) : Prop where
  unlinked : g.unlinked = f.unlinked
  fields : List.Forall₂ (fun p q => q.1 = p.1 ∧ p.2.Keeps q.2) f.allFields g.allFields
  methods : List.Forall₂ (fun p q => q.1 = p.1 ∧ p.2.Keeps q.2) f.allMethods g.allMethods

theorem Blank.coherent {f : File} (h : f.Blank) : f.Coherent := by
  constructor
  · intro p hp
    rw [allFields, List.mem_append, List.mem_flatMap, List.mem_map] at hp
    rcases hp with ⟨m, hm, hp⟩ | ⟨x, hx, rfl⟩
    · rw [allMessages, Message.allOf_eq_flatMap] at hm
      obtain ⟨n, hn, hmn⟩ := List.mem_flatMap.mp hm
      obtain ⟨x, hx, rfl⟩ := List.mem_map.mp hp
      have body := h.messages n hn m hmn
      rcases List.mem_append.mp hx with hx | hx
      · exact (body.fields x hx).coherent
      · exact (body.extensions x hx).coherent
    · exact (h.extensions x hx).coherent
  · intro p hp
    obtain ⟨s, hs, hp⟩ := List.mem_flatMap.mp hp
    obtain ⟨m, hm, rfl⟩ := List.mem_map.mp hp
    exact (h.services s hs m hm).coherent

section Becomes

variable {f g : File} (h : f.Becomes g)

include h

theorem Becomes.allFields :
    List.Forall₂ (fun p q => q.1 = p.1 ∧ p.2.Becomes q.2) f.allFields g.allFields := by
  have named {name name' : String} (hname : name' = name) {fs gs : List Field}
      (hfs : List.Forall₂ Field.Becomes fs gs) :
      List.Forall₂ (fun p q : String × Field => q.1 = p.1 ∧ p.2.Becomes q.2)
        (fs.map (name, ·)) (gs.map (name', ·)) := by
    rw [List.forall₂_map_left_iff, List.forall₂_map_right_iff]
    exact hfs.imp fun _ _ hf => ⟨hname, hf⟩
  have package : g.unlinked.package = f.unlinked.package := congrArg File.package h.unlinked
  rw [File.allFields, File.allFields]
  refine List.rel_append (List.rel_flatMap (Message.bodies_of_forall₂ h.messages) ?_)
    (named package h.extensions)
  intro m n hm
  exact named (congrArg MessageBody.fullName hm.unlinked) (List.rel_append hm.fields hm.extensions)

theorem Becomes.allMethods :
    List.Forall₂ (fun p q => q.1 = p.1 ∧ p.2.Becomes q.2) f.allMethods g.allMethods := by
  rw [File.allMethods, File.allMethods]
  refine List.rel_flatMap h.services fun s t hs => ?_
  have name : t.unlinked.fullName = s.unlinked.fullName := congrArg Service.fullName hs.unlinked
  rw [List.forall₂_map_left_iff, List.forall₂_map_right_iff]
  exact hs.methods.imp fun _ _ hm => ⟨name, hm⟩

theorem Becomes.keeps : f.Keeps g where
  unlinked := h.unlinked
  fields := h.allFields.imp fun _ _ hp => ⟨hp.1, hp.2.toKeeps⟩
  methods := h.allMethods.imp fun _ _ hp => ⟨hp.1, hp.2.toKeeps⟩

theorem Becomes.coherent (hf : f.Coherent) : g.Coherent := by
  constructor
  · exact forall_mem_of_forall₂ h.allFields (fun _ _ hp => hp.2.coherent) hf.fields
  · exact forall_mem_of_forall₂ h.allMethods (fun _ _ hp => hp.2.coherent) hf.methods

end Becomes

end File

namespace Schema

/-! ## Steps -/

/-- What the steps of a session make of a schema: what may become of its files by links, and then
further files, which are coherent. -/
structure Advances (s t : Schema) : Prop where
  files : ∃ kept news, t.files = kept ++ news ∧ List.Forall₂ File.Becomes s.files kept ∧
    ∀ f ∈ news, f.Coherent

theorem Becomes.advances {s t : Schema} (h : s.Becomes t) : s.Advances t :=
  ⟨t.files, [], (List.append_nil _).symm, h.files, List.forall_mem_nil _⟩

theorem Grows.advances {s t : Schema} (h : s.Grows t) : s.Advances t := by
  obtain ⟨fs, hfs, ht⟩ := h.files
  exact ⟨s.files, fs, ht, (Becomes.refl s).files, fun f hf => (hfs f hf).coherent⟩

theorem Advances.refl (s : Schema) : s.Advances s := (Becomes.refl s).advances

/-- What was added by the first step is a part of what the second step starts from. -/
theorem Advances.trans (s t u : Schema) (h : s.Advances t) (h' : t.Advances u) : s.Advances u := by
  obtain ⟨kept, news, ht, hkept, hnews⟩ := h
  obtain ⟨kept', news', hu, hkept', hnews'⟩ := h'
  rw [ht] at hkept'
  obtain ⟨kept₁, kept₂, rfl, h₁, h₂⟩ := exists_append_of_forall₂ hkept'
  refine ⟨kept₁, kept₂ ++ news', ?_, forall₂_trans File.Becomes.trans hkept h₁, ?_⟩
  · rw [hu, List.append_assoc]
  · rw [List.forall_mem_append]
    exact ⟨forall_mem_of_forall₂ h₂ (fun _ _ hf => hf.coherent) hnews, hnews'⟩

variable (scheme : ImportScheme)

theorem after_advances (s : Schema) (step : Step) : s.Advances (after scheme s step) := by
  have same {t : Schema} (h : t.files = s.files) : s.Advances t :=
    ⟨t.files, [], (List.append_nil _).symm, h ▸ (Becomes.refl s).files, List.forall_mem_nil _⟩
  rw [after_eq_leaves]
  cases step with
  | declare generate d => exact (declare_grows scheme generate d s).1.advances
  | link name => exact (linkFile_becomes name s).advances
  | registerAs kind name key =>
    rcases leaves_registerAs kind name key s with h | ⟨t, -, h⟩
    · exact same (congrArg files h)
    · exact same (congrArg files h :)
  | reregister kind name =>
    rcases leaves_reregister kind name s with h | ⟨t, h⟩
    · exact same (congrArg files h)
    · exact same (congrArg files h :)

theorem afterAll_advances (s : Schema) (steps : List Step) :
    s.Advances (afterAll scheme s steps) := by
  induction steps generalizing s with
  | nil => exact .refl s
  | cons step steps ih =>
    rw [afterAll, List.foldl_cons]
    exact (after_advances scheme s step).trans _ _ _ (ih _)

/-- In every state that a session gets to, each field, extension and method is coherent: a slot
reads a value or says that it is not set yet, the enum and the message of a field are both set or
both not, the extended message is set only after them, and the types of a method are both set or
both not.  However the session goes on, every file stays in its place, and in it every slot that
reads a value goes on to read this value. -/
theorem references_written_once (steps later : List Step) :
    (∀ f ∈ (afterAll scheme {} steps).files, f.Coherent) ∧
    ∃ kept news, (afterAll scheme (afterAll scheme {} steps) later).files = kept ++ news ∧
      List.Forall₂ File.Keeps (afterAll scheme {} steps).files kept := by
  constructor
  · -- From the empty schema on, everything that is there was added by some step.
    obtain ⟨kept, news, hfiles, hkept, hnews⟩ := afterAll_advances scheme {} steps
    obtain rfl := List.forall₂_nil_left_iff.mp hkept
    rw [hfiles, List.nil_append]
    exact hnews
  · obtain ⟨kept, news, hfiles, hkept, -⟩ :=
      afterAll_advances scheme (afterAll scheme {} steps) later
    exact ⟨kept, news, hfiles, hkept.imp fun _ _ h => h.keeps⟩

/-- A field is linked to a message of the outer package, and then the inner package gets a message
of the same name. -/
def shadowingSteps : List Step :=
  let field : FieldDescriptor :=
    { name := "t", number := 1, label := some 1, kind := some .message, typeName := "T" }
  [.declare false { name := "a.proto", package := "a", messages := [{ name := "T" }] },
   .declare false { name := "m.proto", package := "a.b"
                    messages := [{ name := "M", fields := [field] }] },
   .link "m.proto",
   .declare false { name := "b.proto", package := "a.b", messages := [{ name := "T" }] },
   .link "m.proto"]

/-- The name means the inner message at the end, and the field still reads the outer one. -/
example :
    let s := afterAll .standard {} shadowingSteps
    (s.registry.resolve [.message] "a.b.M" "T").map (·.fullName) = some "a.b.T" ∧
      s.files.flatMap (fun f => f.allFields.map fun p => p.2.message.value?.map
        (·.map (·.fullName))) = [some (some "a.T")] := by
  decide +kernel

end Schema

end Protolink
