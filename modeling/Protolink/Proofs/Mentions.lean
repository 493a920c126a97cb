import Mathlib.Data.List.Induction
import Protolink.Proofs.Failing
import Protolink.Proofs.Lineage

/-!
# What is written to show references

The output for a file is read off the descriptors: `References.mentions` lists the identifiers that
it mentions, from the imports of the file and from the first declarations in the files imported, and
`References.Sheet` says what the text is, line by line, which modules it imports and in which
order.  How declarations are registered, linked and listed plays no part in it, and neither does
the moment at which an import is noted in the buffer.

Main statement: `Request.references_laid_out`.
-/

namespace Protolink

/-! ## The first declaration of a file -/

/-- The name of the first message of a file, or else of its first enum, or else of its first
service. -/
def FileDescriptor.firstName? (d : FileDescriptor) : Option String :=
  (d.messages.map (·.name) ++ d.enums.map (·.name) ++ d.services.map (·.name)).head?

/-- A declaration at top level is known by its own name. -/
theorem Origin.ident_symbol (o : Origin) (kind : DeclKind) (name : String) :
    (o.symbol kind none name).ident = o.path.ident name :=
  congrArg (Ident.mk o.path) (Name.relative_join o.package name)

namespace File

variable (f : File)

theorem firstIdent_eq : f.firstIdent = ((f.messages.map (·.symbol) ++ f.enums.map (·.symbol)
    ++ f.services.map (·.symbol)).head?).map Symbol.ident := by
  unfold firstIdent
  rcases f.messages with _ | ⟨m, ms⟩
  · rcases f.enums with _ | ⟨e, es⟩
    · rcases f.services with _ | ⟨s, ss⟩ <;> rfl
    · rfl
  · rfl

/-- Links do not matter. -/
theorem firstIdent_unlinked : f.unlinked.firstIdent = f.firstIdent := by
  have messages : f.unlinked.messages = f.messages.map Message.unlinked :=
    filter_map_of_eq (fun m : Message => m.isComplete) Message.unlinked
      (fun m => by rw [Message.unlinked, Message.toMessageBody_map]; rfl) f.ownMessages
  have services : f.unlinked.services = f.services.map Service.unlinked :=
    filter_map_of_eq Service.isComplete Service.unlinked (fun _ => rfl) f.ownServices
  have enums : f.unlinked.enums = f.enums := rfl
  rw [firstIdent_eq, firstIdent_eq, messages, services, enums, List.map_map, List.map_map]
  simp only [Function.comp_def, Message.unlinked, Message.toMessageBody_map]
  rfl

end File

/-- The first declaration of a file is read off its descriptor. -/
theorem FileDescriptor.firstIdent_node (d : FileDescriptor) (scheme : ImportScheme)
    (generate : Bool) : (d.node scheme generate).firstIdent =
      d.firstName?.map (scheme d.name d.package).ident := by
  let src := d.source scheme
  have rooted := d.rooted_node scheme generate
  have fresh := d.fresh_node scheme generate
  have messages : (d.node scheme generate).messages.map (·.symbol) =
      d.messages.map fun m => src.origin.symbol .message none m.name := by
    rw [rooted.messages_eq, ← map_zipIdx_fst _ d.messages 0, node, List.map_map]
    refine List.map_congr_left fun m _ => ?_
    obtain ⟨⟨body, nested⟩, i⟩ := m
    exact src.symbol_bodyNode none _ body
  have enums : (d.node scheme generate).enums.map (·.symbol) =
      d.enums.map fun e => src.origin.symbol .enum none e.name := by
    have listed : (d.node scheme generate).enums = (d.node scheme generate).ownEnums :=
      List.filter_eq_self.mpr fun e he => (rooted.ownEnums e he).1
    rw [listed, ← map_zipIdx_fst _ d.enums 0, node, List.map_map]
    rfl
  have services : (d.node scheme generate).services.map (·.symbol) =
      d.services.map fun s => src.origin.symbol .service none s.name := by
    have listed : (d.node scheme generate).services = (d.node scheme generate).ownServices :=
      List.filter_eq_self.mpr fresh.services
    rw [listed, ← map_zipIdx_fst _ d.services 0, node, List.map_map]
    rfl
  rw [File.firstIdent_eq, messages, enums, services, firstName?, ← List.head?_map, ← List.head?_map]
  simp only [List.map_append, List.map_map, Function.comp_def, Origin.ident_symbol]
  rfl

namespace Schema

variable {s : Schema} {scheme : ImportScheme} {files : List FileDescriptor} {wanted : List String}
  (hs : ofFiles scheme files wanted = .ok s)

include hs

/-- What the imports of a file mention is found among the descriptors. -/
theorem firstIdent_of_ofFiles (name : String) : (s.file? name).bind File.firstIdent =
    (files.find? (·.name == name)).bind fun d =>
      d.firstName?.map (scheme d.name d.package).ident := by
  have unlinked : (s.file? name).map File.unlinked = (files.find? (·.name == name)).map fun d =>
      d.node scheme (wanted.contains d.name) := by
    have found := congrArg (·.file? name) (unlinked_of_ofFiles hs)
    simp only [file?, Schema.unlinked, made, List.find?_map] at found
    exact found
  have nodes : (s.file? name).bind File.firstIdent =
      ((s.file? name).map File.unlinked).bind File.firstIdent := by
    rw [Option.bind_map]
    exact Option.bind_congr fun f _ => f.firstIdent_unlinked.symm
  rw [nodes, unlinked, Option.bind_map]
  exact Option.bind_congr fun d _ => d.firstIdent_node scheme _

theorem exists_mem_follows : ∀ f ∈ s.files, ∃ d ∈ files, f.Follows s d := by
  obtain ⟨hc, rfl⟩ := (ofFiles_eq_ok_iff scheme).mp hs
  intro f hf
  obtain ⟨g, hg, rfl⟩ := List.mem_map.mp hf
  obtain ⟨d, hd, rfl⟩ := List.mem_map.mp hg
  exact ⟨d, hd, linked_node_follows hc d hd⟩

end Schema

/-- A buffer keeps its name. -/
theorem Buffer.Tracks.name_run [WorkingDirectory] {home : ImportPath}
    {steps : List Buffer.Step} {b : Buffer} (h : Buffer.Tracks home steps b) (more : List Buffer.Step) :
    (b.run more).2.name = b.name := by
  induction more using List.reverseRecOn with
  | nil => rfl
  | append_singleton more step ih =>
    obtain ⟨rfl, -, imports, -, -, -⟩ := h.run more
    rw [run_append, run_singleton imports]
    exact ih

/-! ## What is mentioned -/

namespace References

variable (scheme : ImportScheme) (files : List FileDescriptor)

/-- What is mentioned of an import: the first declaration of the file with this name. -/
def mention? (name : String) : Option Ident :=
  (files.find? (·.name == name)).bind fun d => d.firstName?.map (scheme d.name d.package).ident

/-- The identifiers that are mentioned for a file: one of each import, each time that it is
imported, and those of the external packages. -/
def mentions (d : FileDescriptor) : List Ident :=
  d.dependencies.filterMap (mention? scheme files) ++ [identA, identB]

variable {scheme files} {s : Schema} {wanted : List String}

theorem idents_eq (hs : Schema.ofFiles scheme files wanted = .ok s) {d : FileDescriptor} {f : File}
    (hf : f.Follows s d) : idents s f = mentions scheme files d := by
  have names : f.dependencies.map (·.fullName) = d.dependencies := by
    have same := hf.dependencies.imp fun _ _ h => h.1.symm
    rw [← List.forall₂_map_right_iff, List.forall₂_eq_eq_eq] at same
    exact same.symm
  rw [idents, mentions, ← names, List.filterMap_map]
  congr 1
  exact List.filterMap_congr fun t _ => Schema.firstIdent_of_ofFiles hs t.fullName

/-! ## Modules in the order of their mention -/

/-- The modules other than `home` that identifiers are of, each once. -/
def imported (home : ImportPath) (is : List Ident) : List ImportPath :=
  (Buffer.foreign home is).eraseDups

variable {home : ImportPath} {is : List Ident}

theorem mem_imported_iff {p : ImportPath} :
    p ∈ imported home is ↔ p ≠ home ∧ ∃ i ∈ is, i.path = p := by
  simp [imported, Buffer.foreign, and_comm]

theorem imported_snoc (home : ImportPath) (is : List Ident) (i : Ident) :
    imported home (is ++ [i]) = if i.path = home ∨ i.path ∈ imported home is then imported home is
      else imported home is ++ [i.path] := by
  rw [imported, Buffer.foreign_append]
  by_cases hi : i.path = home
  · have none : Buffer.foreign home [i] = [] := by simp [Buffer.foreign, hi]
    rw [none, List.append_nil, if_pos (.inl hi), imported]
  · have one : Buffer.foreign home [i] = [i.path] := by simp [Buffer.foreign, hi]
    rw [one, Buffer.eraseDups_snoc]
    simp only [hi, false_or, imported, List.mem_eraseDups]

/-- Of two modules, the one that is mentioned first comes first. -/
theorem pairwise_imported (home : ImportPath) (is : List Ident) :
    (imported home is).Pairwise fun p q =>
      (is.map (·.path)).idxOf p < (is.map (·.path)).idxOf q := by
  have mem {is : List Ident} {p : ImportPath} (hp : p ∈ imported home is) :
      p ∈ is.map (·.path) := by
    obtain ⟨-, i, hi, rfl⟩ := mem_imported_iff.mp hp
    exact List.mem_map_of_mem hi
  induction is using List.reverseRecOn with
  | nil => simp [imported, Buffer.foreign]
  | append_singleton is i ih =>
    have kept : (imported home is).Pairwise fun p q =>
        ((is ++ [i]).map (·.path)).idxOf p < ((is ++ [i]).map (·.path)).idxOf q := by
      refine ih.imp_of_mem fun hp hq h => ?_
      rwa [List.map_append, List.idxOf_append_of_mem (mem hp), List.idxOf_append_of_mem (mem hq)]
    rw [imported_snoc]
    split
    · exact kept
    · next hnew =>
      obtain ⟨hhome, hnew⟩ := not_or.mp hnew
      refine List.pairwise_append.mpr ⟨kept, List.pairwise_singleton _ _, fun p hp q hq => ?_⟩
      obtain rfl := List.mem_singleton.mp hq
      have fresh : i.path ∉ is.map (·.path) := by
        intro h
        obtain ⟨j, hj, path⟩ := List.mem_map.mp h
        exact hnew (mem_imported_iff.mpr ⟨hhome, j, hj, path⟩)
      rw [List.map_append, List.idxOf_append_of_mem (mem hp), List.idxOf_append, if_neg fresh]
      exact Nat.lt_add_left _ (List.idxOf_lt_length_iff.mpr (mem hp))

/-! ## What is written -/

/-- The line that mentions an identifier: an identifier of another module stands behind the alias of
that module. -/
def mentionLine (home : ImportPath) (i : Ident) : String :=
  "  " ++ (if i.path = home then i.name else home.aliasFor i.path ++ "." ++ i.name) ++ ","

/-- The lines above the import statements. -/
def heading (source : String) : List String :=
  ["// Code generated by protoc-gen-imports. DO NOT EDIT.", "// source: " ++ source, ""]

/-- The lines below the import statements. -/
def body (home : ImportPath) (is : List Ident) : List String :=
  ["", "export const references = ["] ++ is.map (mentionLine home) ++ ["];"]

/-- The text of an output file. -/
def sheet [WorkingDirectory] (home : ImportPath) (source : String) (is : List Ident) : String :=
  "\n".intercalate (heading source ++ (imported home is).map home.statement ++ body home is)

section Written

open Buffer (written)

variable (home : ImportPath) (source : String) (is : List Ident)

theorem entry_zero (pieces : List Buffer.Piece) : Buffer.entry home 0 pieces =
    String.join (pieces.map (Buffer.Piece.textIn home)) := by
  unfold Buffer.entry
  dsimp only
  split
  · next h => exact h.symm
  · exact String.empty_append

theorem entry_mention (i : Ident) :
    Buffer.entry home 2 [.ident i, .text ","] = mentionLine home i := by
  have text : String.join ([.ident i, .text ","].map (Buffer.Piece.textIn home)) =
      (if i.path = home then i.name else home.aliasFor i.path ++ "." ++ i.name) ++ "," := by
    simp only [List.map_cons, List.map_nil, String.join_cons, String.join_nil, String.append_empty,
      Buffer.Piece.textIn]
  have ne_empty (t : String) : t ++ "," ≠ "" := fun h =>
    absurd (String.append_eq_empty_iff.mp h).2 (by decide)
  rw [Buffer.entry, text, mentionLine, String.append_assoc]
  exact if_neg (ne_empty _)

theorem written_mentions (after : List Buffer.Step) :
    written home 2 (is.map (fun i => .line [.ident i, .text ","]) ++ after) =
      is.map (mentionLine home) ++ written home 2 after := by
  induction is with
  | nil => rfl
  | cons i is ih =>
    rw [List.map_cons, List.cons_append, List.map_cons, List.cons_append, ← ih, ← entry_mention]
    rfl

/-- The steps before the mark. -/
def stepsAbove : List Buffer.Step :=
  [.line [.text "// Code generated by protoc-gen-imports. DO NOT EDIT."],
   .line [.text "// source: ", .text source],
   .line []]

/-- The steps after the mark. -/
def stepsBelow : List Buffer.Step :=
  [.line [], .line [.text "export const references = ["], .setIndent 2]
    ++ (is.map (fun i => .line [.ident i, .text ","]) ++ [.setIndent 0, .line [.text "];"]])

theorem steps_eq : steps source is = stepsAbove source ++ .markImports :: stepsBelow is := by
  simp only [steps, stepsAbove, stepsBelow, List.cons_append, List.nil_append]

theorem written_stepsAbove : written home 0 (stepsAbove source) = heading source := by
  have source_line : Buffer.entry home 0 [.text "// source: ", .text source] =
      "// source: " ++ source := by
    rw [entry_zero]
    simp only [List.map_cons, List.map_nil, String.join_cons, String.join_nil, String.append_empty,
      Buffer.Piece.textIn]
  rw [heading, ← source_line]
  rfl

theorem written_stepsBelow : written home 0 (stepsBelow is) = body home is := by
  have mentions := written_mentions home is [.setIndent 0, .line [.text "];"]]
  rw [stepsBelow, Buffer.written_append]
  change _ ++ written home 2 _ = _
  rw [mentions, body, List.append_assoc]
  rfl

theorem forall_mem_stepsBelow {P : Buffer.Step → Prop} (hline : ∀ pieces, P (.line pieces))
    (hlevel : ∀ level, P (.setIndent level)) : ∀ step ∈ stepsBelow is, P step := by
  simp only [stepsBelow, List.forall_mem_append, List.forall_mem_map, List.forall_mem_cons]
  exact ⟨⟨hline _, hline _, hlevel _, List.forall_mem_nil _⟩, fun _ _ => hline _, hlevel _,
    hline _, List.forall_mem_nil _⟩

/-- Only the lines for the identifiers mention something. -/
theorem mentioned_steps : Buffer.mentioned home (steps source is) = imported home is := by
  have idents : (steps source is).flatMap Buffer.Step.idents = is := by
    rw [steps_eq, stepsBelow, List.flatMap_append, List.flatMap_cons, List.flatMap_append,
      List.flatMap_append, List.flatMap_map]
    change [] ++ ([] ++ ([] ++ (is.flatMap (fun i => [i]) ++ []))) = is
    simp
  rw [Buffer.mentioned, idents, imported]

theorem content_run_steps [WorkingDirectory] (name : String) :
    (({ name, home } : Buffer).run (steps source is)).2.content = sheet home source is := by
  obtain ⟨hhome, hlines, himports, hmark, -, hfinish⟩ :=
    (Buffer.Tracks.nil name home).run (steps source is)
  have mark : Buffer.beforeMark? (steps source is) = some (stepsAbove source) := by
    have unmarked := forall_mem_stepsBelow is (P := fun step => step.isMark = false)
      (fun _ => rfl) fun _ => rfl
    rw [steps_eq, ← List.singleton_append, ← List.append_assoc,
      Buffer.beforeMark?_unmarked unmarked, Buffer.beforeMark?_snoc]
    rfl
  have finish : Buffer.finisher (steps source is) = id := by
    have below : (stepsBelow is).filterMap Buffer.Step.finish? = [] :=
      List.filterMap_eq_nil_iff.mpr (forall_mem_stepsBelow is (fun _ => rfl) fun _ => rfl)
    rw [Buffer.finisher, steps_eq, List.filterMap_append, List.filterMap_cons_none rfl, below]
    rfl
  have lines : written home 0 (steps source is) = heading source ++ body home is := by
    rw [steps_eq, Buffer.written_append, written_stepsAbove, ← written_stepsBelow]
    rfl
  rw [List.nil_append] at hlines himports hmark hfinish
  rw [mark, Option.map_some, written_stepsAbove] at hmark
  rw [lines] at hlines
  rw [mentioned_steps] at himports
  rw [finish] at hfinish
  rw [Buffer.content, Buffer.finalLines, hmark, hfinish, Buffer.statements, himports, hhome, hlines]
  dsimp only
  rw [List.take_left, List.drop_left]
  rfl

end Written

/-- What the text of an output file is. -/
structure Sheet [WorkingDirectory] (home : ImportPath) (source : String) (is : List Ident)
    (text : String) : Prop where
  text : text = sheet home source is
  /-- There is one import statement for each module other than `home`. -/
  modules : ∀ p, p ∈ imported home is ↔ p ≠ home ∧ ∃ i ∈ is, i.path = p
  /-- The statements are in the order in which the modules are first mentioned. -/
  order : (imported home is).Pairwise fun p q =>
    (is.map (·.path)).idxOf p < (is.map (·.path)).idxOf q
  /-- The alias in a line is bound by an import statement. -/
  bound : ∀ i ∈ is, i.path ≠ home → ∃ p ∈ imported home is,
    mentionLine home i = "  " ++ home.aliasFor p ++ "." ++ i.name ++ "," ∧
    home.statement p =
      "import * as " ++ home.aliasFor p ++ " from \"" ++ home.specifier p ++ "\";"

theorem sheet_run_steps [WorkingDirectory] (home : ImportPath) (source : String) (is : List Ident)
    (name : String) :
    Sheet home source is (({ name, home } : Buffer).run (steps source is)).2.content where
  text := content_run_steps home source is name
  modules _ := mem_imported_iff
  order := pairwise_imported home is
  bound i hi hne := by
    refine ⟨i.path, mem_imported_iff.mpr ⟨hne, i, hi, rfl⟩, ?_, rfl⟩
    rw [mentionLine, if_neg hne]
    simp only [String.append_assoc]

/-- What a file mentions of its imports. -/
structure Draws (scheme : ImportScheme) (files : List FileDescriptor) (d : FileDescriptor) :
    Prop where
  /-- Of an import, the first declaration is mentioned. -/
  first : ∀ n ∈ d.dependencies, ∃ g ∈ files, g.name = n ∧
    mention? scheme files n = g.firstName?.map (scheme g.name g.package).ident
  /-- Without an import that declares nothing but extensions, the same is mentioned. -/
  silent : ∀ g ∈ files, g.messages = [] → g.enums = [] → g.services = [] →
    mentions scheme files { d with dependencies := d.dependencies.filter (· ≠ g.name) } =
      mentions scheme files d

theorem mention?_of_mem {files : List FileDescriptor} (distinct : (files.map (·.name)).Nodup)
    {g : FileDescriptor} (hg : g ∈ files) :
    mention? scheme files g.name = g.firstName?.map (scheme g.name g.package).ident := by
  have found : files.find? (·.name == g.name) = some g :=
    (find?_eq_some_iff_of_nodup distinct fun _ => beq_iff_eq).mpr ⟨hg, rfl⟩
  rw [mention?, found, Option.bind_some]

theorem draws_of_coherent {files : List FileDescriptor} {wanted : List String}
    (hc : Coherent files wanted) {d : FileDescriptor} (hd : d ∈ files) :
    Draws scheme files d := by
  have names := Schema.nodup_names hc.distinct
  constructor
  · intro n hn
    obtain ⟨g, hg, rfl⟩ := List.mem_map.mp (hc.dependencies d hd n hn)
    exact ⟨g, hg, rfl, mention?_of_mem names hg⟩
  · intro g hg messages enums services
    have nothing : mention? scheme files g.name = none := by
      rw [mention?_of_mem names hg, FileDescriptor.firstName?, messages, enums, services]
      rfl
    rw [mentions, mentions, List.filterMap_filter]
    congr 1
    refine List.filterMap_congr fun n _ => ?_
    by_cases hn : n = g.name
    · rw [hn, nothing, ite_self]
    · rw [if_pos (decide_eq_true hn)]

end References

/-! ## Responses -/

namespace Request

variable {r : Request} {scheme : ImportScheme} {s : Schema}

/-- What the generator of references writes for each file to generate, down to the last line, is
determined by the descriptor of the file and by the first declarations in the files that it imports.
Every module that a line needs is imported once, in the order of the first mention, and the module
that is written is not imported.  These files are the response. -/
theorem references_laid_out [WorkingDirectory]
    (hs : Schema.ofFiles scheme r.files r.filesToGenerate = .ok s) (features : Nat)
    (backtrace : Error → String) :
    (∀ f ∈ s.filesToGenerate, ∃ d ∈ r.files, f.name = d.name ∧
      (References.write s f).name = outputName d.name ".imports.ts" ∧
      References.Sheet ⟨outputName d.name ".imports.ts", "", ""⟩ d.name
        (References.mentions scheme r.files d) (References.write s f).content ∧
      References.Draws scheme r.files d) ∧
    (r.filesToGenerate ≠ [] →
      r.process References.generator scheme features backtrace =
        .ok (.generated features
          (s.filesToGenerate.map fun f => (References.write s f).file))) := by
  constructor
  · intro f hf
    obtain ⟨d, hd, follows⟩ := Schema.exists_mem_follows hs f (List.mem_of_mem_filter hf)
    have idents := References.idents_eq hs follows
    obtain ⟨hc, -⟩ := (Schema.ofFiles_eq_ok_iff scheme).mp hs
    have draws : References.Draws scheme r.files d := References.draws_of_coherent hc hd
    rw [References.write, idents, follows.name]
    have sheet := References.sheet_run_steps ⟨outputName d.name ".imports.ts", "", ""⟩ d.name
      (References.mentions scheme r.files d) (outputName d.name ".imports.ts")
    exact ⟨d, hd, rfl, (Buffer.Tracks.nil _ _).name_run _, sheet, draws⟩
  · intro wanted
    have written : s.filesToGenerate.mapM (fun f => Except.ok (References.write s f)) =
        Except.ok (ε := Error) (s.filesToGenerate.map (References.write s)) :=
      Gives.mapM_eq_ok fun _ _ => rfl
    have files : (Plugin.start r s features).filesToGenerate = s.filesToGenerate := rfl
    have schema : (Plugin.start r s features).schema = s := rfl
    rw [process_eq, Plugin.ofRequest_eq_ok (Schema.files_ne_nil hs wanted) wanted hs, Except.map,
      References.generator, Generator.perFile, files, schema, written]
    have response : ((Plugin.start r s features).buffers ++
        s.filesToGenerate.map (References.write s)).map (·.file) =
          s.filesToGenerate.map fun f => (References.write s f).file := List.map_map
    exact congrArg (fun fs => Except.ok (Response.generated features fs)) response

/-- A file that imports two files of one module, one of them with no message, then a file that only
has an extension, and twice a file that is said to be of the module that is written. -/
def medleyFiles : List FileDescriptor := [
  { name := "own.proto", package := "own", messages := [{ name := "Own" }, { name := "Other" }] },
  { name := "kind.proto", enums := [{ name := "Kind" }], services := [{ name := "Late" }] },
  { name := "note.proto", dependencies := ["own.proto"]
    extensions := [
      { name := "note", number := 7, label := some 1, kind := some .string
        extendee := some ".own.Own" }] },
  { name := "service.proto", services := [{ name := "Service" }] },
  { name := "medley.proto"
    dependencies :=
      ["own.proto", "note.proto", "service.proto", "own.proto", "kind.proto"] }]

/-- The module of `own.proto` is the one that is written for `medley.proto`. -/
def medleyScheme : ImportScheme := fun filename _ =>
  if filename = "own.proto" then ⟨"medley.imports.ts", "", ""⟩ else ⟨"all.ts", "", ""⟩

/-- What is written for `medley.proto`. -/
def medleyLines : List String := [
  "// Code generated by protoc-gen-imports. DO NOT EDIT.",
  "// source: medley.proto",
  "",
  "import * as _all from \"./all\";",
  "import * as _package_hello_world from \"@package/hello-world\";",
  "import * as hallo_welt__my_awesome_protos_pb from \"hallo-welt/my/awesome/protos_pb\";",
  "",
  "export const references = [",
  "  Own,",
  "  _all.Service,",
  "  Own,",
  "  _all.Kind,",
  "  _package_hello_world.A,",
  "  hallo_welt__my_awesome_protos_pb.B,",
  "];"]

theorem references_laid_out_medleyFiles :
    letI : WorkingDirectory := .ofPath ['/']
    ∃ s, Schema.ofFiles medleyScheme medleyFiles ["medley.proto"] = .ok s ∧
      ∃ f ∈ s.filesToGenerate,
        (References.write s f).content = "\n".intercalate medleyLines := by
  have named : (Schema.ofFiles medleyScheme medleyFiles ["medley.proto"]).toOption.any fun s =>
      s.filesToGenerate.any (·.name == "medley.proto") := by decide +kernel
  have text : letI : WorkingDirectory := .ofPath ['/']
      ∀ d ∈ medleyFiles, d.name = "medley.proto" →
        References.sheet ⟨outputName d.name ".imports.ts", "", ""⟩ d.name
          (References.mentions medleyScheme medleyFiles d) = "\n".intercalate medleyLines := by
    decide +kernel
  obtain ⟨s, hs⟩ : ∃ s, Schema.ofFiles medleyScheme medleyFiles ["medley.proto"] = .ok s :=
    exists_ofFiles_of_isOk (by decide +kernel)
  rw [hs, Except.toOption, Option.any_some, List.any_eq_true] at named
  obtain ⟨f, hf, name⟩ := named
  obtain ⟨d, hd, hname, -, ⟨written, -⟩, -⟩ := (@references_laid_out
    ⟨medleyFiles, ["medley.proto"], ""⟩ medleyScheme s (.ofPath ['/']) hs 1 fun _ => "").1 f hf
  have medley : d.name = "medley.proto" := hname ▸ beq_iff_eq.mp name
  exact ⟨s, hs, f, hf, written.trans (text d hd medley)⟩

end Request

end Protolink
