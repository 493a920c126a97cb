import Protolink.Proofs.Reading
import Protolink.Proofs.Terse

/-!
# What has no say in a response

References in terse nodes are followed as they are in full ones, since spellings stay and the
registry has the same keys; so terse files make the terse schema, or are refused with the same
error.  Listings show nothing of what terse nodes leave out, whatever modules are exchanged.
References show modules, and they are the same for terse nodes that keep them.

`Request.process_terse` puts this together for every generator that writes file by file.  Two runs
are compared through the terse run that they have in common: `Request.unread_data_ignored`.
-/

namespace Protolink

variable (g : ImportPath → ImportPath) (r : Registry Symbol)

/-! ## Following references in terse nodes -/

namespace Field

section Target

variable (f : Field)

@[simp] theorem fullName_terse : (f.terse g).fullName = f.fullName := rfl

@[simp] theorem kind_terse : (f.terse g).kind = f.kind := rfl

@[simp] theorem typeName_terse : (f.terse g).typeName = f.typeName := rfl

@[simp] theorem extendeeName_terse : (f.terse g).extendeeName = f.extendeeName := rfl

@[simp] theorem scope_terse : (f.terse g).scope = f.scope := rfl

@[simp] theorem place_terse : (f.terse g).place = f.place := rfl

theorem target_terse :
    (f.target r).map (Option.map (Symbol.via g)) = (f.terse g).target (r.via g) := by
  simp only [target, kind_terse, typeName_terse, scope_terse, fullName_terse, place_terse,
    Registry.resolve_map]
  cases f.kind.targetKind? with
  | none => rfl
  | some kind =>
    by_cases unnamed : f.typeName = ""
    · simp only [unnamed, if_true]
      rfl
    · simp only [unnamed, if_false]
      cases r.resolve [kind] f.scope f.typeName <;> rfl

theorem extended_terse :
    (f.extended r).map (Option.map (Symbol.via g)) = (f.terse g).extended (r.via g) := by
  simp only [extended, extendeeName_terse, scope_terse, fullName_terse, place_terse,
    Registry.resolve_map]
  split
  · rfl
  · rfl
  · cases r.resolve [.message] f.scope _ <;> rfl

end Target

theorem setTarget_terse (t : Option Symbol) :
    Mirrored (Field.terse g) (setTarget t) (setTarget (t.map (Symbol.via g))) := by
  have kinds (kind : DeclKind) : (t.map (Symbol.via g)).filter (·.kind == kind) =
      (t.filter (·.kind == kind)).map (Symbol.via g) := Option.filter_map
  rw [setTarget, setTarget, kinds, kinds]
  refine (Link.mirrored_set ?_ ?_ _).seq fun _ => Link.mirrored_set ?_ ?_ _
  · exact fun _ => rfl
  · exact fun _ _ => rfl
  · exact fun _ => rfl
  · exact fun _ _ => rfl

theorem setExtendee_terse (t : Option Symbol) :
    Mirrored (Field.terse g) (setExtendee t) (setExtendee (t.map (Symbol.via g))) := by
  refine Link.mirrored_set ?_ ?_ t
  · exact fun _ => rfl
  · exact fun _ _ => rfl

theorem link_terse : Mirrored (Field.terse g) (Field.link r) (Field.link (r.via g)) := by
  refine Link.mirrored_determine (target_terse g r) fun t => ?_
  refine (setTarget_terse g t).seq fun _ => ?_
  exact Link.mirrored_determine (extended_terse g r) (setExtendee_terse g)

end Field

/-- All elements of a list are seen one by one. -/
theorem Link.mirrored_all {σ τ : Type} {q : σ → τ} {step : Link σ Unit} {step' : Link τ Unit}
    (h : Mirrored q step step') : Mirrored (List.map q) (Link.each (fun _ => true) step)
      (Link.each (fun _ => true) step') :=
  Link.mirrored_each h fun _ => rfl

theorem MessageBody.link_terse :
    Mirrored (MessageBody.terse g) (MessageBody.link r) (MessageBody.link (r.via g)) := by
  have fields := Link.mirrored_all (Field.link_terse g r)
  refine (Link.mirrored_within fields ?_ ?_).seq fun _ =>
    (Link.mirrored_within fields ?_ ?_).seq fun _ => Link.mirrored_edit ?_
  · exact fun _ => rfl
  · exact fun _ _ => rfl
  · exact fun _ => rfl
  · exact fun _ _ => rfl
  · exact fun _ => rfl

namespace Message

theorem lists_terse (b n : MessageBody) : (b.terse g).lists (n.terse g) = b.lists n := rfl

mutual

theorem link_terse : ∀ m : Message,
    seen (Message.terse g) (Message.link r m) = Message.link (r.via g) (m.terse g)
  | ⟨body, nested⟩ => by
    have parts : Message.terse g ⟨body, nested⟩ = ⟨body.terse g, nested.map (terse g)⟩ :=
      Message.terse_eq g _
    have bodies : MessageBody.link (r.via g) (body.terse g) =
        seen (MessageBody.terse g) (MessageBody.link r body) :=
      (MessageBody.link_terse g r body).symm
    rw [parts, link, link, ← linkNested_terse body nested, bodies]
    cases linkNested r body nested with
    | error e nested' => exact congrArg (EStateM.Result.error e) (Message.terse_eq g _)
    | ok _ nested' =>
      simp only [seen]
      cases MessageBody.link r body with
      | error e body' => exact congrArg (EStateM.Result.error e) (Message.terse_eq g _)
      | ok _ body' => exact congrArg (EStateM.Result.ok ()) (Message.terse_eq g _)

theorem linkNested_terse (body : MessageBody) : ∀ ms : List Message,
    seen (List.map (Message.terse g)) (linkNested r body ms) =
      linkNested (r.via g) (body.terse g) (ms.map (Message.terse g))
  | [] => by
    rw [List.map_nil, linkNested, linkNested]
    rfl
  | m :: ms => by
    have first : (if (body.terse g).lists (m.terse g).toMessageBody
          then link (r.via g) (m.terse g) else .ok () (m.terse g)) =
        seen (Message.terse g) (if body.lists m.toMessageBody then link r m else .ok () m) := by
      rw [Message.terse, toMessageBody_map, lists_terse]
      cases body.lists m.toMessageBody with
      | false => rfl
      | true => exact (link_terse m).symm
    rw [List.map_cons, linkNested, linkNested, first, ← linkNested_terse body ms]
    cases (if body.lists m.toMessageBody then link r m else .ok () m) with
    | error e m' => rfl
    | ok _ m' =>
      simp only [seen]
      cases linkNested r body ms <;> rfl

end

end Message

namespace Method

theorem typeOf_terse (scope role : String) (m : Method) (typeName : String) :
    (m.typeOf r scope role typeName).map (Symbol.via g) =
      (m.terse g).typeOf (r.via g) scope role typeName := by
  have fullName : (m.terse g).fullName = m.fullName := rfl
  simp only [typeOf, Registry.resolve_map, fullName]
  by_cases unnamed : typeName = ""
  · simp only [unnamed, if_true]
    rfl
  · simp only [unnamed, if_false]
    cases r.resolve [.message] scope typeName <;> rfl

theorem setTypes_terse (i o : Symbol) :
    Mirrored (Method.terse g) (setTypes i o) (setTypes (i.via g) (o.via g)) := by
  refine (Link.mirrored_set ?_ ?_ i).seq fun _ => Link.mirrored_set ?_ ?_ o
  · exact fun _ => rfl
  · exact fun _ _ => rfl
  · exact fun _ => rfl
  · exact fun _ _ => rfl

theorem link_terse (scope : String) :
    Mirrored (Method.terse g) (Method.link r scope) (Method.link (r.via g) scope) := by
  have input (m : Method) := typeOf_terse g r scope "input" m m.inputName
  have output (m : Method) := typeOf_terse g r scope "output" m m.outputName
  exact Link.mirrored_determine input fun i =>
    Link.mirrored_determine output fun o => setTypes_terse g i o

end Method

theorem Service.link_terse :
    Mirrored (Service.terse g) (Service.link r) (Service.link (r.via g)) := by
  intro s
  have methods := Link.mirrored_all (Method.link_terse g r s.fullName)
  refine Link.mirrored_within methods ?_ ?_ s
  · exact fun _ => rfl
  · exact fun _ _ => rfl

namespace File

theorem addDependency_terse (name : String) (f : File) :
    (f.addDependency r name).map (File.terse g) = (f.terse g).addDependency (r.via g) name := by
  have fileName : (f.terse g).name = f.name := rfl
  simp only [addDependency, Registry.lookup_map, fileName]
  cases r.lookup .file name with
  | none => rfl
  | some s =>
    simp only [Except.map, Option.map_some, terse, List.map_append, List.map_singleton]

theorem link_terse : Mirrored (File.terse g) (File.link r) (File.link (r.via g)) := by
  have messages : Mirrored (List.map (Message.terse g))
      (Link.each (·.isComplete) (Message.link r))
      (Link.each (·.isComplete) (Message.link (r.via g))) := by
    refine Link.mirrored_each (Message.link_terse g r) fun m => ?_
    rw [Message.terse_eq]
    rfl
  have services : Mirrored (List.map (Service.terse g))
      (Link.each (·.isComplete) (Service.link r))
      (Link.each (·.isComplete) (Service.link (r.via g))) :=
    Link.mirrored_each (Service.link_terse g r) fun _ => rfl
  have extensions := Link.mirrored_all (Field.link_terse g r)
  have imported (name : String) : Mirrored (File.terse g) (Link.update (addDependency r name))
      (Link.update (addDependency (r.via g) name)) :=
    Link.mirrored_update (addDependency_terse g r name)
  intro f
  refine ((mirrored_forM_self imported f.dependencyNames).seq fun _ =>
    (Link.mirrored_within messages ?_ ?_).seq fun _ =>
      (Link.mirrored_within services ?_ ?_).seq fun _ =>
        Link.mirrored_within extensions ?_ ?_) f
  · exact fun _ => rfl
  · exact fun _ _ => rfl
  · exact fun _ => rfl
  · exact fun _ _ => rfl
  · exact fun _ => rfl
  · exact fun _ _ => rfl

end File

/-! ## Schemas of terse files -/

namespace Schema

def terse (s : Schema) : Schema := ⟨s.registry.via g, s.files.map (File.terse g)⟩

theorem declare_terse (scheme : ImportScheme) (generate : Bool) (d : FileDescriptor) :
    Mirrored (terse g) (declare scheme generate d) (declare (scheme.via g) generate d.terse) := by
  intro s
  have mirrored : seen (Prod.map (List.map (File.terse g)) (Registry.via g))
      (d.declare scheme generate (s.files, s.registry)) =
    d.terse.declare (scheme.via g) generate (s.files.map (File.terse g), s.registry.via g) :=
    d.declare_terse g scheme generate (s.files, s.registry)
  unfold declare
  simp only [terse, ← mirrored]
  cases d.declare scheme generate (s.files, s.registry) <;> rfl

theorem linkAll_terse : Mirrored (terse g) linkAll linkAll := by
  intro s
  have mirrored := Link.mirrored_all (File.link_terse g s.registry) s.files
  unfold linkAll
  simp only [terse, ← mirrored]
  cases Link.each (fun _ => true) (File.link s.registry) s.files <;> rfl

theorem assemble_terse (scheme : ImportScheme) (files : List FileDescriptor)
    (wanted : List String) : Mirrored (terse g) (assemble scheme files wanted)
      (assemble (scheme.via g) (files.map FileDescriptor.terse) wanted) := by
  have declares (d : FileDescriptor) := declare_terse g scheme (wanted.contains d.name) d
  refine (mirrored_forM declares files).seq fun _ => (linkAll_terse g).seq fun _ =>
    mirrored_get fun s => mirrored_forM_self (fun name => ?_) wanted
  have found : ((s.terse g).registry.lookup .file name).isSome =
      (s.registry.lookup .file name).isSome := by
    rw [terse, Registry.lookup_map, Option.isSome_map]
  rw [found]
  by_cases there : (s.registry.lookup .file name).isSome
  · rw [if_pos there]
    exact mirrored_pure ()
  · rw [if_neg there]
    exact mirrored_throw _

/-- Terse files make the terse schema, or are refused with the same error. -/
theorem ofFiles_terse (scheme : ImportScheme) (files : List FileDescriptor)
    (wanted : List String) : (ofFiles scheme files wanted).map (terse g) =
      ofFiles (scheme.via g) (files.map FileDescriptor.terse) wanted := by
  have mirrored : seen (terse g) (assemble scheme files wanted {}) =
      assemble (scheme.via g) (files.map FileDescriptor.terse) wanted {} :=
    assemble_terse g scheme files wanted {}
  unfold ofFiles
  rw [← mirrored]
  cases assemble scheme files wanted {} <;> rfl

theorem file?_terse (s : Schema) (name : String) :
    (s.terse g).file? name = (s.file? name).map (File.terse g) := by
  rw [file?, terse, List.find?_map]
  rfl

theorem filesToGenerate_terse (s : Schema) :
    (s.terse g).filesToGenerate = s.filesToGenerate.map (File.terse g) :=
  filter_map_of_eq File.generate (File.terse g) (fun _ => rfl) s.files

end Schema

/-! ## What is written for terse schemas -/

section Listings

variable {g}

theorem Field.skeleton_terse (f : Field) : (f.terse g).skeleton = f.skeleton := by
  have target (s : Slot (Option Symbol)) : (s.via g).skeleton = s.skeleton := by
    rw [Slot.skeleton, Slot.map_map, Option.map_comp_map]
    rfl
  simp only [terse, skeleton, target]

theorem EnumType.skeleton_terse (e : EnumType) : (e.terse g).skeleton = e.skeleton := by
  have values := map_map_of_eq (k := EnumValue.terse) (q := EnumValue.skeleton) (fun _ => rfl)
    e.values
  simp only [terse, skeleton, values]

theorem MessageBody.skeleton_terse (b : MessageBody) : (b.terse g).skeleton = b.skeleton := by
  have oneofs := map_map_of_eq (k := Oneof.terse) (q := Oneof.skeleton) (fun _ => rfl) b.oneofs
  simp only [terse, skeleton, map_map_of_eq Field.skeleton_terse, oneofs,
    map_map_of_eq EnumType.skeleton_terse]

theorem Message.skeleton_terse (m : Message) : (m.terse g).skeleton = m.skeleton := by
  rw [terse, skeleton, map_map]
  exact congrArg m.map (funext MessageBody.skeleton_terse)

theorem Method.skeleton_terse (m : Method) : (m.terse g).skeleton = m.skeleton := by
  simp only [terse, skeleton, Slot.map_map]
  rfl

theorem Service.skeleton_terse (v : Service) : (v.terse g).skeleton = v.skeleton := by
  simp only [terse, skeleton, map_map_of_eq Method.skeleton_terse]

theorem File.skeleton_terse (f : File) : (f.terse g).skeleton = f.skeleton := by
  have dependencies := map_map_of_eq (k := Symbol.via g) (q := Symbol.skeleton) (fun _ => rfl)
    f.dependencies
  simp only [terse, skeleton, map_map_of_eq Message.skeleton_terse, dependencies,
    map_map_of_eq EnumType.skeleton_terse, map_map_of_eq Service.skeleton_terse,
    map_map_of_eq Field.skeleton_terse]
  rfl

theorem Schema.skeleton_terse (s : Schema) : (s.terse g).skeleton = s.skeleton :=
  congrArg (Schema.mk {}) (map_map_of_eq File.skeleton_terse s.files)

theorem Listing.write_terse (s : Schema) (f : File) :
    write (s.terse g) (f.terse g) = write s f := by
  rw [← write_skeleton, s.skeleton_terse, f.skeleton_terse, write_skeleton]

end Listings

/-- If the modules stay, so do the identifiers. -/
theorem File.firstIdent_terse (f : File) : (f.terse id).firstIdent = f.firstIdent := by
  have messages : (f.terse id).messages = f.messages.map (Message.terse id) := by
    refine filter_map_of_eq (fun m : Message => m.isComplete) (Message.terse id) (fun m => ?_)
      f.ownMessages
    rw [Message.terse_eq]
    rfl
  have enums : (f.terse id).enums = f.enums.map (EnumType.terse id) :=
    filter_map_of_eq EnumType.isComplete (EnumType.terse id) (fun _ => rfl) f.ownEnums
  have services : (f.terse id).services = f.services.map (Service.terse id) :=
    filter_map_of_eq Service.isComplete (Service.terse id) (fun _ => rfl) f.ownServices
  unfold firstIdent
  rw [messages, enums, services]
  rcases f.messages with _ | ⟨m, ms⟩
  · rcases f.enums with _ | ⟨e, es⟩
    · rcases f.services with _ | ⟨s, ss⟩ <;> rfl
    · rfl
  · simp only [List.map_cons, Message.terse_eq]
    rfl

theorem References.write_terse [WorkingDirectory] (s : Schema) (f : File) :
    write (s.terse id) (f.terse id) = write s f := by
  have mentioned : idents (s.terse id) (f.terse id) = idents s f := by
    have dependencies : (f.terse id).dependencies = f.dependencies := List.map_id _
    unfold idents
    simp only [dependencies, s.file?_terse, Option.bind_map, Function.comp_def,
      File.firstIdent_terse]
  unfold write
  rw [mentioned]
  rfl

/-! ## Responses -/

namespace Request

/-- The request with terse files. -/
def terse (r : Request) : Request := { r with files := r.files.map FileDescriptor.terse }

theorem ofRequest_terse (r : Request) (scheme : ImportScheme) (features : Nat) :
    Plugin.ofRequest r.terse (scheme.via g) features =
      (Plugin.ofRequest r scheme features).map fun p => { p with schema := p.schema.terse g } := by
  have files : r.terse.files = [] ↔ r.files = [] := List.map_eq_nil_iff
  have schema : Schema.ofFiles (scheme.via g) r.terse.files r.terse.filesToGenerate =
      (Schema.ofFiles scheme r.files r.filesToGenerate).map (Schema.terse g) :=
    (Schema.ofFiles_terse g scheme r.files r.filesToGenerate).symm
  unfold Plugin.ofRequest
  rw [schema]
  by_cases none : r.files = []
  · rw [if_pos none, if_pos (files.mpr none)]
    rfl
  · rw [if_neg none, if_neg (mt files.mp none)]
    by_cases unwanted : r.filesToGenerate = []
    · rw [if_pos unwanted, if_pos (show r.terse.filesToGenerate = [] from unwanted)]
      rfl
    · rw [if_neg unwanted, if_neg (show ¬r.terse.filesToGenerate = [] from unwanted)]
      cases Schema.ofFiles scheme r.files r.filesToGenerate <;> rfl

/-- A generator that writes the same for a schema and for the terse one leads to the same answer. -/
theorem process_terse [WorkingDirectory] {write : Schema → File → Except Error Buffer}
    (hwrite : ∀ s f, write (s.terse g) (f.terse g) = write s f) (r : Request)
    (scheme : ImportScheme) (features : Nat) (backtrace : Error → String) :
    r.terse.process (Generator.perFile write) (scheme.via g) features backtrace =
      r.process (Generator.perFile write) scheme features backtrace := by
  rw [process_eq, process_eq, ofRequest_terse]
  cases Plugin.ofRequest r scheme features with
  | error e => rfl
  | ok p =>
    refine congrArg Except.ok (conclude_perFile_of_mapM ?_ backtrace)
    rw [Schema.filesToGenerate_terse]
    exact mapM_map_of_eq (hwrite p.schema) p.schema.filesToGenerate

/-- What has no say in a response, be it one of success or an error.  Requests that differ only in
comments, syntaxes, names in JSON, and marks of what is deprecated or explicitly optional are
answered the same by both generators; and the generator of listings answers the same whatever module
a scheme chooses for a file. -/
theorem unread_data_ignored [WorkingDirectory] (features : Nat) (backtrace : Error → String) :
    (∀ q q' : Request, q'.terse = q.terse → ∀ scheme,
      q'.process Listing.generator scheme features backtrace =
        q.process Listing.generator scheme features backtrace ∧
      q'.process References.generator scheme features backtrace =
        q.process References.generator scheme features backtrace) ∧
    ∀ (r : Request) (scheme scheme' : ImportScheme),
      r.process Listing.generator scheme' features backtrace =
        r.process Listing.generator scheme features backtrace := by
  have listing (g : ImportPath → ImportPath) (r : Request) (scheme : ImportScheme) :
      r.terse.process Listing.generator (scheme.via g) features backtrace =
        r.process Listing.generator scheme features backtrace :=
    process_terse g Listing.write_terse r scheme features backtrace
  have references (r : Request) (scheme : ImportScheme) :
      r.terse.process References.generator scheme features backtrace =
        r.process References.generator scheme features backtrace :=
    process_terse id (fun s f => congrArg Except.ok (References.write_terse s f)) r scheme features
      backtrace
  constructor
  · intro q q' same scheme
    constructor
    · rw [← listing id q' scheme, same, listing id q scheme]
    · rw [← references q' scheme, same, references q scheme]
  · intro r scheme scheme'
    -- With one module for all files, nothing is left of the schemes.
    rw [← listing (fun _ => default) r scheme', ← listing (fun _ => default) r scheme]
    rfl

/-- A file with everything that terse files leave out, after the file that it imports. -/
def notedFiles : List FileDescriptor := [
  { name := "base.proto", package := "base", messages := [{ name := "Item" }] },
  { name := "noted.proto", package := "noted", dependencies := ["base.proto"]
    syntaxName := "proto3"
    comments := [{ path := [4, 0], leading := " A note." }]
    messages := [
      { name := "Note", deprecated := true
        fields := [
          { name := "text", number := 1, label := some 1, kind := some .string
            jsonName := "words", proto3Optional := true },
          { name := "item", number := 2, label := some 1, kind := some .message
            typeName := ".base.Item" }] }] }]

/-- A request for the noted file, and the one without the file that it imports. -/
def notedRequest : Request := ⟨notedFiles, ["noted.proto"], ""⟩

def shortRequest : Request := ⟨notedFiles.tail, ["noted.proto"], ""⟩

theorem unread_data_ignored_notedFiles :
    letI : WorkingDirectory := .ofPath ['/']
    notedRequest.terse.process Listing.generator .standard =
      notedRequest.process Listing.generator .bundled ∧
    (notedRequest.process Listing.generator .bundled).isOk ∧
    shortRequest.terse.process References.generator .bundled =
      .error (.unknownDependency "noted.proto" "base.proto") := by
  obtain ⟨alike, schemes⟩ := @unread_data_ignored (.ofPath ['/']) Plugin.optionalFields fun _ => ""
  have same : notedRequest.terse.terse = notedRequest.terse := rfl
  have same' : shortRequest.terse.terse = shortRequest.terse := rfl
  obtain ⟨listing, -⟩ := alike _ _ same .standard
  obtain ⟨-, references⟩ := alike _ _ same' .bundled
  refine ⟨listing.trans (schemes _ _ _), by decide +kernel, references.trans ?_⟩
  decide +kernel

end Request

end Protolink
