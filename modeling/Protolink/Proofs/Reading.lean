import Protolink.Proofs.Response
import Protolink.Proofs.Skeleton
import Protolink.References

/-!
# What the generators read

A node is more than what is written about it.  `bare` takes away what neither generator looks at:
locations, how references are spelled, names in other formats, and some flags.  Both generators
write the same of a bare schema, so requests whose schemas are the same when they are bare have the
same responses.
-/

namespace Protolink

/-! ## Bare nodes -/

namespace Field

def bare (f : Field) : Field :=
  { f with
    jsonName := "", location := default, typeName := "", extendeeName := none
    proto3Optional := false }

end Field

def Oneof.bare (o : Oneof) : Oneof := { o with location := default }

def EnumValue.bare (v : EnumValue) : EnumValue := { v with location := default }

def EnumType.bare (e : EnumType) : EnumType :=
  { e with location := default, values := e.values.map EnumValue.bare }

def MessageBody.bare (b : MessageBody) : MessageBody :=
  { b with
    location := default, deprecated := false
    fields := b.fields.map Field.bare
    oneofs := b.oneofs.map Oneof.bare
    ownEnums := b.ownEnums.map EnumType.bare
    extensions := b.extensions.map Field.bare }

def Message.bare (m : Message) : Message := m.map MessageBody.bare

def Method.bare (m : Method) : Method :=
  { m with location := default, inputName := "", outputName := "" }

def Service.bare (s : Service) : Service :=
  { s with location := default, methods := s.methods.map Method.bare }

def File.bare (f : File) : File :=
  { f with
    syntaxName := "", location := default
    ownMessages := f.ownMessages.map Message.bare
    ownEnums := f.ownEnums.map EnumType.bare
    ownServices := f.ownServices.map Service.bare
    extensions := f.extensions.map Field.bare }

/-- The files of a schema without what is not read, and without the registry. -/
def Schema.bare (s : Schema) : Schema := { files := s.files.map File.bare }

/-! ## Lists of bare nodes -/

namespace File

variable (f : File)

theorem messages_bare : f.bare.messages = f.messages.map Message.bare := by
  refine filter_map_of_eq (fun m : Message => m.isComplete) Message.bare (fun m => ?_) f.ownMessages
  rw [Message.bare, Message.toMessageBody_map]
  rfl

theorem enums_bare : f.bare.enums = f.enums.map EnumType.bare :=
  filter_map_of_eq EnumType.isComplete EnumType.bare (fun _ => rfl) f.ownEnums

theorem services_bare : f.bare.services = f.services.map Service.bare :=
  filter_map_of_eq Service.isComplete Service.bare (fun _ => rfl) f.ownServices

theorem firstIdent_bare : f.bare.firstIdent = f.firstIdent := by
  unfold firstIdent
  rw [messages_bare, enums_bare, services_bare]
  rcases f.messages with _ | ⟨m, ms⟩
  · rcases f.enums with _ | ⟨e, es⟩
    · rcases f.services with _ | ⟨s, ss⟩ <;> rfl
    · rfl
  · simp only [List.map_cons, Message.bare, Message.toMessageBody_map]
    rfl

end File

namespace Schema

variable (s : Schema)

theorem file?_bare (name : String) : s.bare.file? name = (s.file? name).map File.bare := by
  rw [file?, bare, List.find?_map]
  rfl

theorem filesToGenerate_bare : s.bare.filesToGenerate = s.filesToGenerate.map File.bare :=
  filter_map_of_eq File.generate File.bare (fun _ => rfl) s.files

end Schema

/-! ## Listings -/

/-- A list is changed once if the second change takes back the first one. -/
theorem map_map_of_eq {α β : Type} {k : α → α} {q : α → β} (h : ∀ a, q (k a) = q a)
    (as : List α) : (as.map k).map q = as.map q := by
  rw [List.map_map]
  exact List.map_congr_left fun a _ => h a

theorem Field.skeleton_bare (f : Field) : f.bare.skeleton = f.skeleton := rfl

theorem EnumType.skeleton_bare (e : EnumType) : e.bare.skeleton = e.skeleton := by
  have values := map_map_of_eq (k := EnumValue.bare) (q := EnumValue.skeleton) (fun _ => rfl)
    e.values
  simp only [bare, skeleton, values]

theorem MessageBody.skeleton_bare (b : MessageBody) : b.bare.skeleton = b.skeleton := by
  have oneofs := map_map_of_eq (k := Oneof.bare) (q := Oneof.skeleton) (fun _ => rfl) b.oneofs
  simp only [bare, skeleton, map_map_of_eq Field.skeleton_bare, oneofs,
    map_map_of_eq EnumType.skeleton_bare]

theorem Message.skeleton_bare (m : Message) : m.bare.skeleton = m.skeleton := by
  rw [bare, skeleton, map_map]
  exact congrArg m.map (funext MessageBody.skeleton_bare)

theorem Service.skeleton_bare (v : Service) : v.bare.skeleton = v.skeleton := by
  have methods := map_map_of_eq (k := Method.bare) (q := Method.skeleton) (fun _ => rfl) v.methods
  simp only [bare, skeleton, methods]

theorem File.skeleton_bare (f : File) : f.bare.skeleton = f.skeleton := by
  simp only [bare, skeleton, map_map_of_eq Message.skeleton_bare,
    map_map_of_eq EnumType.skeleton_bare, map_map_of_eq Service.skeleton_bare,
    map_map_of_eq Field.skeleton_bare]
  rfl

theorem Schema.skeleton_bare (s : Schema) : s.bare.skeleton = s.skeleton :=
  congrArg (Schema.mk {}) (map_map_of_eq File.skeleton_bare s.files)

theorem Listing.write_bare (s : Schema) (f : File) : write s.bare f.bare = write s f := by
  rw [← write_skeleton, s.skeleton_bare, f.skeleton_bare, write_skeleton]

/-! ## References -/

namespace References

theorem write_bare [WorkingDirectory] (s : Schema) (f : File) :
    write s.bare f.bare = write s f := by
  have mentioned : idents s.bare f.bare = idents s f := by
    unfold idents
    simp only [s.file?_bare, Option.bind_map, Function.comp_def, File.firstIdent_bare]
    rfl
  unfold write
  rw [mentioned]
  rfl

end References

/-! ## Responses -/

theorem mapM_filesToGenerate_bare {write : Schema → File → Except Error Buffer}
    (hwrite : ∀ s f, write s.bare f.bare = write s f) (s : Schema) :
    s.bare.filesToGenerate.mapM (write s.bare) = s.filesToGenerate.mapM (write s) := by
  rw [s.filesToGenerate_bare]
  exact mapM_map_of_eq (hwrite s) s.filesToGenerate

variable [WorkingDirectory]

/-- A generator that writes one buffer for each file leads to the same response for schemas of which
it writes the same. -/
theorem conclude_perFile_of_mapM {write : Schema → File → Except Error Buffer} {p : Plugin}
    {s : Schema} (made : s.filesToGenerate.mapM (write s) =
      p.schema.filesToGenerate.mapM (write p.schema)) (backtrace : Error → String) :
    Plugin.conclude backtrace (Generator.perFile write { p with schema := s }) =
      Plugin.conclude backtrace (Generator.perFile write p) := by
  unfold Generator.perFile Plugin.filesToGenerate
  dsimp only
  rw [made]
  cases p.schema.filesToGenerate.mapM (write p.schema) <;> rfl

/-- So it does for schemas that are the same when they are bare, if this is all that it reads. -/
theorem conclude_perFile_congr {write : Schema → File → Except Error Buffer}
    (hwrite : ∀ s f, write s.bare f.bare = write s f) {p : Plugin} {s : Schema}
    (h : s.bare = p.schema.bare) (backtrace : Error → String) :
    Plugin.conclude backtrace (Generator.perFile write { p with schema := s }) =
      Plugin.conclude backtrace (Generator.perFile write p) := by
  refine conclude_perFile_of_mapM ?_ backtrace
  rw [← mapM_filesToGenerate_bare hwrite s, h, mapM_filesToGenerate_bare hwrite p.schema]

/-- Requests with the same parameter, of which neither lacks what the other has, have the same
response if their schemas are the same when they are bare. -/
theorem Request.process_perFile_congr {write : Schema → File → Except Error Buffer}
    (hwrite : ∀ s f, write s.bare f.bare = write s f) {q q' : Request} {scheme : ImportScheme}
    {s s' : Schema} (hparameter : q'.parameter = q.parameter)
    (hfiles : q'.files = [] ↔ q.files = [])
    (hgenerate : q'.filesToGenerate = [] ↔ q.filesToGenerate = [])
    (hs : Schema.ofFiles scheme q.files q.filesToGenerate = .ok s)
    (hs' : Schema.ofFiles scheme q'.files q'.filesToGenerate = .ok s') (h : s'.bare = s.bare)
    (features : Nat) (backtrace : Error → String) :
    q'.process (Generator.perFile write) scheme features backtrace =
      q.process (Generator.perFile write) scheme features backtrace := by
  have plugin {q : Request} {s : Schema}
      (hs : Schema.ofFiles scheme q.files q.filesToGenerate = .ok s) :
      Plugin.ofRequest q scheme features = if q.files = [] then .error .noFiles
        else if q.filesToGenerate = [] then .error .noFilesToGenerate
        else .ok (Plugin.start q s features) := by
    unfold Plugin.ofRequest
    rw [hs]
    rfl
  have same : Plugin.conclude backtrace (Generator.perFile write (Plugin.start q' s' features)) =
      Plugin.conclude backtrace (Generator.perFile write (Plugin.start q s features)) := by
    have start : Plugin.start q' s' features = { Plugin.start q s features with schema := s' } := by
      rw [Plugin.start, hparameter]
      rfl
    rw [start]
    exact conclude_perFile_congr hwrite h backtrace
  rw [process_eq, process_eq, plugin hs, plugin hs']
  simp only [hfiles, hgenerate]
  by_cases hf : q.files = []
  · rw [if_pos hf, if_pos hf]
  · rw [if_neg hf, if_neg hf]
    by_cases hg : q.filesToGenerate = []
    · rw [if_pos hg, if_pos hg]
    · rw [if_neg hg, if_neg hg]
      exact congrArg Except.ok same

end Protolink
