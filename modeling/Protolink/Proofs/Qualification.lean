import Protolink.Proofs.Reading
import Protolink.Proofs.Resolution
import Protolink.Proofs.Respelling

/-!
# Requests in full names

Every reference of an accepted request can be spelled by the full name of what it means.  This is a
spelling that keeps all meanings, and it changes nothing that the generators read.
-/

namespace Protolink

variable (spell : Spelling)

/-! ## The spelling by full names -/

/-- The spelling of names by the full names of what they mean in a registry. -/
def Registry.qualify (r : Registry Symbol) : Spelling := fun kind scope typeName =>
  match r.resolve [kind] scope typeName with
  | some t => "." ++ t.fullName
  | none => typeName

/-- Full names mean what they stand for, if everything is registered under its full name. -/
theorem Registry.keeps_qualify {r : Registry Symbol}
    (h : ∀ kind key t, r.lookup kind key = some t → t.fullName = key) : r.qualify.Keeps r := by
  constructor
  · intro kind scope typeName hn
    unfold qualify
    cases r.resolve [kind] scope typeName with
    | none => exact hn
    | some t => simp
  · intro kind scope typeName
    unfold qualify
    cases ht : r.resolve [kind] scope typeName with
    | none => exact ht
    | some t =>
      obtain ⟨c, -, hc⟩ := exists_lookup_of_resolve ht
      obtain rfl := h kind c t hc
      have full : ("." ++ t.fullName).toList = '.' :: t.fullName.toList := by simp
      have dotted : ("." ++ t.fullName).toList.head? = some '.' := by rw [full, List.head?_cons]
      show r.resolve [kind] scope ("." ++ t.fullName) = some t
      rw [resolve_qualified r kind scope dotted, full, List.tail_cons, String.ofList_toList, hc]

/-! ## What is read of what is respelled -/

theorem MessageBody.bare_respelled (b : MessageBody) : (b.respelled spell).bare = b.bare := by
  simp only [bare, respelled, List.map_map]
  rfl

theorem Message.bare_respelled (m : Message) :
    (m.map (MessageBody.respelled spell)).bare = m.bare := by
  rw [bare, map_map, bare]
  exact congrArg (map · m) (funext (MessageBody.bare_respelled spell))

theorem File.bare_respelled (f : File) : (f.respelled spell).bare = f.bare := by
  have service (s : Service) : (s.respelled spell).bare = s.bare := by
    simp only [Service.bare, Service.respelled, List.map_map]
    rfl
  simp only [bare, respelled, List.map_map, Function.comp_def, Message.bare_respelled, service]
  rfl

theorem Schema.bare_respelled (s : Schema) : (s.respelled spell).bare = s.bare := by
  simp only [bare, respelled, List.map_map, Function.comp_def, File.bare_respelled]

/-! ## Names in full -/

/-- A field whose references are spelled by a dot and the full names of what they lead to. -/
structure Field.NamedInFull (f : Field) : Prop where
  typeName : ∀ t, f.enumType.get = .ok (some t) ∨ f.message.get = .ok (some t) →
    f.typeName = "." ++ t.fullName
  extendee : ∀ t, f.extendee.get = .ok (some t) → f.extendeeName = some ("." ++ t.fullName)

structure Method.NamedInFull (m : Method) : Prop where
  input : ∀ t, m.input.get = .ok t → m.inputName = "." ++ t.fullName
  output : ∀ t, m.output.get = .ok t → m.outputName = "." ++ t.fullName

/-- A file in which every reference is spelled in full, at any depth. -/
structure File.NamedInFull (f : File) : Prop where
  fields : ∀ p ∈ f.allFields, p.2.NamedInFull
  methods : ∀ p ∈ f.allMethods, p.2.NamedInFull

theorem Registry.qualify_of_resolve {r : Registry Symbol} {kind : DeclKind}
    {scope typeName : String} {t : Symbol} (h : r.resolve [kind] scope typeName = some t) :
    r.qualify kind scope typeName = "." ++ t.fullName := by
  rw [qualify, h]

theorem Field.namedInFull_linked (r : Registry Symbol) (f : Field) :
    ((f.linked r).respelled r.qualify).NamedInFull := by
  have target {t : Symbol} (ht : f.targetSymbol? r = some t) :
      ((f.linked r).respelled r.qualify).typeName = "." ++ t.fullName := by
    obtain ⟨kind, hkind, ht⟩ := Option.bind_eq_some_iff.mp ht
    rw [typeName_respelled (f := f.linked r) hkind]
    exact Registry.qualify_of_resolve ht
  constructor
  · rintro t (ht | ht)
    · exact target (Option.filter_eq_some_iff.mp (Except.ok.inj ht)).1
    · exact target (Option.filter_eq_some_iff.mp (Except.ok.inj ht)).1
  · intro t ht
    obtain ⟨e, he, ht⟩ := Option.bind_eq_some_iff.mp (Except.ok.inj ht)
    obtain ⟨he, hne⟩ := Option.filter_eq_some_iff.mp he
    have he : (f.linked r).extendeeName = some e := he
    rw [extendeeName_respelled, he, Option.map_some, if_neg (by simpa using hne)]
    exact congrArg some (Registry.qualify_of_resolve ht)

theorem Method.namedInFull_linked (r : Registry Symbol) (scope : String) (m : Method) :
    ((m.linked r scope).respelled r.qualify scope).NamedInFull := by
  constructor
  · intro t ht
    exact Registry.qualify_of_resolve (Slot.get_eq_ok_iff.mp ht)
  · intro t ht
    exact Registry.qualify_of_resolve (Slot.get_eq_ok_iff.mp ht)

namespace File

theorem allFields_respelled (f : File) :
    (f.respelled spell).allFields = f.allFields.map fun p => (p.1, p.2.respelled spell) := by
  have messages : (f.respelled spell).allMessages =
      f.allMessages.map (Message.map (MessageBody.respelled spell)) :=
    Message.allOf_map _ f.ownMessages
  rw [allFields, messages, List.flatMap_map, allFields, List.map_append, List.map_flatMap,
    respelled, List.map_map, List.map_map]
  simp only [Message.toMessageBody_map, MessageBody.respelled, ← List.map_append, List.map_map]
  rfl

theorem allMethods_respelled (f : File) :
    (f.respelled spell).allMethods = f.allMethods.map fun p => (p.1, p.2.respelled spell p.1) := by
  simp only [allMethods, respelled, List.flatMap_map, List.map_flatMap, List.map_map,
    Service.respelled, Function.comp_def]

/-- The names in a file may be spelled in full once it is linked. -/
theorem namedInFull_linked (r : Registry Symbol) {f : File} (h : f.Fresh) :
    ((f.linked r).respelled r.qualify).NamedInFull := by
  constructor
  · rw [allFields_respelled, allFields_linked r h, List.map_map]
    refine List.forall_mem_map.mpr fun p _ => ?_
    exact p.2.namedInFull_linked r
  · rw [allMethods_respelled, allMethods_linked r h, List.map_map]
    refine List.forall_mem_map.mpr fun p _ => ?_
    exact p.2.namedInFull_linked r p.1

end File

/-! ## Requests -/

/-- Two files refer to the same declarations, each field and each method to the same as its
counterpart. -/
structure File.RefersAlike (f g : File) : Prop where
  origin : g.origin = f.origin
  dependencies : g.dependencies = f.dependencies
  fields : List.Forall₂ (fun p q => q.2.fullName = p.2.fullName ∧ q.2.enumType = p.2.enumType ∧
    q.2.message = p.2.message ∧ q.2.extendee = p.2.extendee) f.allFields g.allFields
  methods : List.Forall₂ (fun p q => q.2.fullName = p.2.fullName ∧ q.2.input = p.2.input ∧
    q.2.output = p.2.output) f.allMethods g.allMethods

theorem File.refersAlike_respelled (spell : Spelling) (f : File) :
    f.RefersAlike (f.respelled spell) := by
  refine ⟨rfl, rfl, ?_, ?_⟩
  · rw [allFields_respelled, List.forall₂_map_right_iff]
    exact List.forall₂_same.mpr fun p _ => ⟨rfl, rfl, rfl, rfl⟩
  · rw [allMethods_respelled, List.forall₂_map_right_iff]
    exact List.forall₂_same.mpr fun p _ => ⟨rfl, rfl, rfl⟩

/-- A request in which all references are spelled by the full names of what they mean. -/
def Request.qualified (r : Registry Symbol) (q : Request) : Request :=
  { q with files := q.files.map (·.respelled r.qualify) }

/-- An accepted request can be spelled by full names: it is accepted as well, its declarations refer
to the same ones as before, which are what they are now spelled by, and both generators give it the
same response. -/
theorem Request.process_qualified [WorkingDirectory] {q : Request} {scheme : ImportScheme}
    {s : Schema} (h : Schema.ofFiles scheme q.files q.filesToGenerate = .ok s) :
    ∃ s', Schema.ofFiles scheme (q.qualified s.registry).files q.filesToGenerate = .ok s' ∧
      s'.registry = s.registry ∧ List.Forall₂ File.RefersAlike s.files s'.files ∧
      (∀ f ∈ s'.files, f.NamedInFull) ∧
      ∀ features backtrace,
        (q.qualified s.registry).process Listing.generator scheme features backtrace =
          q.process Listing.generator scheme features backtrace ∧
        (q.qualified s.registry).process References.generator scheme features backtrace =
          q.process References.generator scheme features backtrace := by
  have names : ∀ kind key t, s.registry.lookup kind key = some t → t.fullName = key :=
    fun kind key t ht => (Prod.mk.inj ((Schema.faithful_of_ofFiles h).holds_of_lookup ht).1).2
  have made : Schema.ofFiles scheme (q.qualified s.registry).files
      (q.qualified s.registry).filesToGenerate = .ok (s.respelled s.registry.qualify) :=
    Schema.ofFiles_respelled _ h (Registry.keeps_qualify names)
  have parameter : (q.qualified s.registry).parameter = q.parameter := rfl
  have files : (q.qualified s.registry).files = [] ↔ q.files = [] := List.map_eq_nil_iff
  refine ⟨_, made, rfl, ?_, ?_, fun features backtrace => ⟨?_, ?_⟩⟩
  · rw [Schema.respelled, List.forall₂_map_right_iff]
    exact List.forall₂_same.mpr fun f _ => f.refersAlike_respelled _
  · obtain ⟨-, rfl⟩ := (Schema.ofFiles_eq_ok_iff scheme).mp h
    refine List.forall_mem_map.mpr <| List.forall_mem_map.mpr <| List.forall_mem_map.mpr
      fun d _ => ?_
    exact File.namedInFull_linked _ (d.fresh_node scheme _)
  · exact process_perFile_congr Listing.write_bare parameter files Iff.rfl h made
      (Schema.bare_respelled _ s) features backtrace
  · exact process_perFile_congr (fun s f => congrArg Except.ok (References.write_bare s f))
      parameter files Iff.rfl h made (Schema.bare_respelled _ s) features backtrace

theorem Request.process_qualified_shopFiles :
    let : WorkingDirectory := .ofPath ['/']
    ∃ s s', Schema.ofFiles .bundled shopFiles ["shop.proto"] = .ok s ∧
      Schema.ofFiles .bundled (shopFiles.map (·.respelled s.registry.qualify)) ["shop.proto"] =
        .ok s' ∧
      List.Forall₂ File.RefersAlike s.files s'.files ∧ (∀ f ∈ s'.files, f.NamedInFull) ∧
      process ⟨shopFiles.map (·.respelled s.registry.qualify), ["shop.proto"], ""⟩
          Listing.generator .bundled =
        process ⟨shopFiles, ["shop.proto"], ""⟩ Listing.generator .bundled := by
  intro root
  obtain ⟨s, hs⟩ := exists_ofFiles_shopFiles
  obtain ⟨s', hs', -, alike, named, responses⟩ :=
    process_qualified (q := ⟨shopFiles, ["shop.proto"], ""⟩) hs
  exact ⟨s, s', hs, hs', alike, named, (responses Plugin.optionalFields fun _ => "").1⟩

end Protolink
