import Protolink.Proofs.Content
import Protolink.Script

/-!
# All or nothing

What a request is answered, for every script that a generator may follow.  `Advances` says what
steps that do not fail make of a plugin, buffer by buffer; it is proved for one step by
`perform_advances` and for whole scripts by `generator_advances`.  From it the response is read
off: the first failure counts, or else the first report, or else the files.
-/

namespace Protolink

namespace Script

/-! ## What steps are for -/

/-- What a step raises if so many buffers are there. -/
def Step.fault? (created : Nat) : Step → Option Error
  | .fail message => some (.generator message)
  | .buffer n (.setIndent level) => if n < created ∧ level < 0 then some .negativeIndent else none
  | _ => none

/-- The error that a step reports. -/
def Step.report? : Step → Option String
  | .report message => some message
  | _ => none

/-- The buffer that a step opens. -/
def Step.opens? : Step → Option Buffer
  | .newBuffer name home => some { name, home }
  | _ => none

/-- What a step does with the buffer at place `n`, in a plugin like `p`. -/
def Step.onBuffer? (p : Plugin) (n : Nat) : Step → Option Buffer.Step
  | .line k pieces => if k = n then some (.line (pieces.map (·.resolve p))) else none
  | .spell k piece =>
    match piece.resolve p with
    | .ident i => if k = n then some (.spell i) else none
    | .text _ => none
  | .buffer k step => if k = n then some step else none
  | _ => none

/-- How many buffers steps open. -/
def opened (steps : List Step) : Nat := (steps.filterMap Step.opens?).length

/-- What the first step to fail raises, if so many buffers are there before the first step. -/
def fault? (created : Nat) : List Step → Option Error
  | [] => none
  | step :: steps => (step.fault? created).or (fault? (created + opened [step]) steps)

/-- What a step means for a buffer depends on the schema of the plugin alone. -/
theorem Step.onBuffer?_congr {p q : Plugin} (h : p.schema = q.schema) :
    Step.onBuffer? p = Step.onBuffer? q := by
  have resolve : Piece.resolve p = Piece.resolve q := by
    funext piece
    cases piece with
    | plain piece => rfl
    | declared kind name => simp only [Piece.resolve, h]
  funext n step
  cases step <;> simp only [onBuffer?, resolve]

theorem opened_append (xs ys : List Step) : opened (xs ++ ys) = opened xs + opened ys := by
  rw [opened, opened, opened, List.filterMap_append, List.length_append]

theorem fault?_append (created : Nat) (xs ys : List Step) :
    fault? created (xs ++ ys) = (fault? created xs).or (fault? (created + opened xs) ys) := by
  induction xs generalizing created with
  | nil => rfl
  | cons x xs ih =>
    have hx : opened (x :: xs) = opened [x] + opened xs := opened_append [x] xs
    rw [List.cons_append, fault?, fault?, ih, Option.or_assoc, hx, Nat.add_assoc]

/-! ## Runs without a failure -/

variable [WorkingDirectory]

/-- What becomes of a plugin in steps that do not fail: the first report is kept, every step that
opens a buffer appends one, and every buffer runs through the steps that are for it. -/
structure Advances (p : Plugin) (steps : List Step) (p' : Plugin) : Prop where
  schema : p'.schema = p.schema
  supportedFeatures : p'.supportedFeatures = p.supportedFeatures
  error : p'.error? = p.error?.or (steps.filterMap Step.report?).head?
  length : p'.buffers.length = p.buffers.length + opened steps
  buffers : ∀ (n : Nat) (b : Buffer), p.buffers[n]? = some b →
    p'.buffers[n]? = some (b.run (steps.filterMap (Step.onBuffer? p n))).2

variable {p p' p'' : Plugin} {xs ys : List Step}

theorem Advances.nil (p : Plugin) : Advances p [] p := by
  constructor
  · rfl
  · rfl
  · exact Option.or_none.symm
  · rfl
  · intro n b hb
    exact hb

theorem Advances.trans (h : Advances p xs p') (h' : Advances p' ys p'') :
    Advances p (xs ++ ys) p'' := by
  constructor
  · exact h'.schema.trans h.schema
  · exact h'.supportedFeatures.trans h.supportedFeatures
  · rw [h'.error, h.error, Option.or_assoc, List.filterMap_append, List.head?_append]
  · rw [h'.length, h.length, opened, opened, opened, List.filterMap_append, List.length_append,
      Nat.add_assoc]
  · intro n b hb
    rw [h'.buffers n _ (h.buffers n b hb), Step.onBuffer?_congr h.schema,
      List.filterMap_append, Buffer.run_append]

/-- Steps that neither report nor open anything change the buffers at most, and each of them at most
by what the step is for it. -/
theorem Advances.of_buffers {step : Step} (hreport : step.report? = none)
    (hopens : step.opens? = none) {bs : List Buffer} (hlength : bs.length = p.buffers.length)
    (h : ∀ (k : Nat) (b : Buffer), p.buffers[k]? = some b →
      bs[k]? = some (b.run (step.onBuffer? p k).toList).2) :
    Advances p [step] { p with buffers := bs } := by
  constructor
  · rfl
  · rfl
  · rw [List.filterMap_cons_none hreport]
    exact Option.or_none.symm
  · rw [opened, List.filterMap_cons_none hopens]
    exact hlength
  · intro k b hb
    have hsteps : [step].filterMap (Step.onBuffer? p k) = (step.onBuffer? p k).toList := by
      cases hk : step.onBuffer? p k <;> simp [hk]
    rw [hsteps]
    exact h k b hb

/-- Without a fault, a step with one buffer advances the plugin. -/
theorem onBuffer_advances {n : Nat} {bufferStep : Buffer.Step} {step : Step}
    (hstep : ∀ b, p.buffers[n]? = some b → ∃ r, b.perform bufferStep = .ok r)
    (hreport : step.report? = none) (hopens : step.opens? = none)
    (hbuffer : ∀ k, step.onBuffer? p k = if n = k then some bufferStep else none) :
    ∃ r, onBuffer p n bufferStep = .ok r ∧ Advances p [step] r.2 := by
  unfold onBuffer
  cases hb : p.buffers[n]? with
  | none =>
    refine ⟨_, rfl, .of_buffers hreport hopens rfl ?_⟩
    intro k c hc
    have hk : n ≠ k := by
      rintro rfl
      rw [hb] at hc
      cases hc
    rw [hbuffer, if_neg hk]
    exact hc
  | some b =>
    obtain ⟨⟨answer, b'⟩, hperform⟩ := hstep b hb
    refine ⟨(.buffer answer, { p with buffers := p.buffers.set n b' }), ?_,
      .of_buffers hreport hopens List.length_set ?_⟩
    · simp only [hperform]
      rfl
    · intro k c hc
      by_cases hk : n = k
      · subst hk
        obtain rfl : b = c := Option.some.inj (hb.symm.trans hc)
        have hn : n < p.buffers.length := (List.getElem?_eq_some_iff.mp hb).1
        rw [hbuffer, if_pos rfl, List.getElem?_set_self hn]
        simp only [Option.toList_some, Buffer.run, hperform]
      · rw [hbuffer, if_neg hk, List.getElem?_set_ne hk]
        exact hc

/-- Steps that leave the plugin as it is. -/
theorem Advances.refl {step : Step} (hreport : step.report? = none) (hopens : step.opens? = none)
    (hbuffer : ∀ k, step.onBuffer? p k = none) : Advances p [step] p := by
  refine .of_buffers hreport hopens rfl ?_
  intro k b hb
  rw [hbuffer]
  exact hb

theorem Advances.newBuffer (p : Plugin) (name : String) (home : ImportPath) :
    Advances p [.newBuffer name home] (p.newBuffer name home) := by
  constructor
  · rfl
  · rfl
  · exact Option.or_none.symm
  · exact List.length_append
  · intro n b hb
    have hn : n < p.buffers.length := (List.getElem?_eq_some_iff.mp hb).1
    rw [List.filterMap_cons_none rfl, Plugin.newBuffer, List.getElem?_append_left hn]
    exact hb

theorem Advances.report (p : Plugin) (message : String) :
    Advances p [.report message] (p.report message) := by
  constructor
  · rfl
  · rfl
  · rfl
  · rfl
  · intro n b hb
    exact hb

/-- A step with a fault fails. -/
theorem perform_eq_error {step : Step} {e : Error} (h : step.fault? p.buffers.length = some e) :
    perform p step = .error e := by
  cases step with
  | fail message =>
    obtain rfl : .generator message = e := Option.some.inj h
    rfl
  | buffer n bufferStep =>
    cases bufferStep with
    | setIndent level =>
      obtain ⟨⟨hn, hlevel⟩, rfl⟩ : (n < p.buffers.length ∧ level < 0) ∧ .negativeIndent = e := by
        simpa [Step.fault?] using h
      simp [perform, onBuffer, List.getElem?_eq_getElem hn, Buffer.perform, Buffer.setIndent,
        hlevel, bind, Except.bind]
    | _ => cases h
  | _ => cases h

/-- A step without a fault advances the plugin. -/
theorem perform_advances {step : Step} (h : step.fault? p.buffers.length = none) :
    ∃ r, perform p step = .ok r ∧ Advances p [step] r.2 := by
  cases step with
  | newBuffer name home => exact ⟨_, rfl, .newBuffer p name home⟩
  | report message => exact ⟨_, rfl, .report p message⟩
  | fail message => cases h
  | parameters => exact ⟨_, rfl, .refl rfl rfl fun _ => rfl⟩
  | files => exact ⟨_, rfl, .refl rfl rfl fun _ => rfl⟩
  | buffers => exact ⟨_, rfl, .refl rfl rfl fun _ => rfl⟩
  | census => exact ⟨_, rfl, .refl rfl rfl fun _ => rfl⟩
  | line n pieces => exact onBuffer_advances (fun b _ => ⟨_, rfl⟩) rfl rfl fun _ => rfl
  | spell n piece =>
    cases hpiece : piece.resolve p with
    | text s =>
      refine ⟨(.buffer (.text s), p), ?_, .refl rfl rfl fun k => ?_⟩
      · simp only [perform, hpiece]
      · simp only [Step.onBuffer?, hpiece]
    | ident i =>
      have hperform : perform p (.spell n piece) = onBuffer p n (.spell i) := by
        simp only [perform, hpiece]
      rw [hperform]
      refine onBuffer_advances (fun b _ => ⟨_, rfl⟩) rfl rfl fun k => ?_
      simp only [Step.onBuffer?, hpiece]
  | buffer n bufferStep =>
    refine onBuffer_advances (fun b hb => ?_) rfl rfl fun _ => rfl
    cases bufferStep with
    | setIndent level =>
      have hn : n < p.buffers.length := (List.getElem?_eq_some_iff.mp hb).1
      have hlevel : ¬level < 0 := fun hlevel => by simp [Step.fault?, hn, hlevel] at h
      simp [Buffer.perform, Buffer.setIndent, hlevel, bind, Except.bind, pure, Except.pure]
    | _ => exact ⟨_, rfl⟩

/-! ## Runs of scripts -/

/-- A script goes on where its first half leaves off. -/
theorem generator_append {xs : List Step} {p q : Plugin} (h : generator xs p = .ok () q)
    (ys : List Step) : generator (xs ++ ys) p = generator ys q := by
  induction xs generalizing p with
  | nil =>
    obtain rfl : p = q := by simpa [generator] using h
    rfl
  | cons x xs ih =>
    cases hx : perform p x with
    | error e => simp [generator, hx] at h
    | ok r =>
      simp only [generator, hx] at h
      simp only [List.cons_append, generator, hx, ih h]

/-- A script with a fault fails, with what the first faulty step raises. -/
theorem generator_eq_error : ∀ (steps : List Step) (p : Plugin) (e : Error),
    fault? p.buffers.length steps = some e → ∃ p', generator steps p = .error e p'
  | [], _, _, h => by cases h
  | step :: steps, p, e, h => by
    cases hstep : step.fault? p.buffers.length with
    | some e' =>
      obtain rfl : e' = e := by simpa [fault?, hstep] using h
      exact ⟨p, by simp only [generator, perform_eq_error hstep]⟩
    | none =>
      obtain ⟨r, hr, advances⟩ := perform_advances hstep
      rw [fault?, hstep, Option.none_or, ← advances.length] at h
      obtain ⟨p', hp'⟩ := generator_eq_error steps r.2 e h
      exact ⟨p', by simp only [generator, hr, hp']⟩

/-- A script without a fault reaches its end. -/
theorem generator_advances : ∀ (steps : List Step) (p : Plugin),
    fault? p.buffers.length steps = none →
      ∃ p', generator steps p = .ok () p' ∧ Advances p steps p'
  | [], p, _ => ⟨p, rfl, .nil p⟩
  | step :: steps, p, h => by
    obtain ⟨hstep, hsteps⟩ := Option.or_eq_none_iff.mp h
    obtain ⟨r, hr, advances⟩ := perform_advances hstep
    rw [← advances.length] at hsteps
    obtain ⟨p', hp', rest⟩ := generator_advances steps r.2 hsteps
    exact ⟨p', by simp only [generator, hr, hp'], advances.trans rest⟩

/-- What follows the opening of a buffer makes the buffer. -/
theorem buffer_of_opening {before after : List Step} {name : String} {home : ImportPath}
    {p p' : Plugin}
    (hfault : fault? p.buffers.length (before ++ .newBuffer name home :: after) = none)
    (h : generator (before ++ .newBuffer name home :: after) p = .ok () p') :
    p'.buffers[p.buffers.length + opened before]? = some (({ name, home } : Buffer).run
      (after.filterMap (Step.onBuffer? p (p.buffers.length + opened before)))).2 := by
  rw [fault?_append, Option.or_eq_none_iff] at hfault
  obtain ⟨q, hq, advances⟩ := generator_advances before p hfault.1
  have hafter : fault? (q.newBuffer name home).buffers.length after = none := by
    have hrest := (Option.or_eq_none_iff.mp hfault.2).2
    rw [← advances.length] at hrest
    rwa [Plugin.newBuffer, List.length_append]
  obtain ⟨p'', hp'', rest⟩ := generator_advances after (q.newBuffer name home) hafter
  obtain rfl : p'' = p' := by
    rw [generator_append hq] at h
    exact (EStateM.Result.ok.inj (hp''.symm.trans h)).2
  have hbuffer : (q.newBuffer name home).buffers[q.buffers.length]? = some { name, home } := by
    simp [Plugin.newBuffer]
  have hsteps : Step.onBuffer? (q.newBuffer name home) = Step.onBuffer? p :=
    Step.onBuffer?_congr advances.schema
  rw [← advances.length, rest.buffers _ _ hbuffer, hsteps]

/-! ## Responses -/

/-- The response of a plugin that starts as `p` and follows a script: what the first failure raises,
also after reports, and the backtrace of it; or else the first report, even if it is empty; or else
one file for each buffer that is opened, in order, with all that is written to the buffer until the
end. -/
structure Responds (p : Plugin) (backtrace : Error → String) (steps : List Step)
    (response : Response) : Prop where
  failed : ∀ e, fault? 0 steps = some e →
    response = .failed ("Plugin exited with error: \"" ++ e.message ++ "\"" ++ backtrace e)
  reported : fault? 0 steps = none →
    ∀ message, (steps.filterMap Step.report?).head? = some message → response = .failed message
  generated : fault? 0 steps = none → steps.filterMap Step.report? = [] →
    ∃ files, response = .generated p.supportedFeatures files ∧ files.length = opened steps ∧
      ∀ before name home after, steps = before ++ .newBuffer name home :: after →
        files[opened before]? = some (({ name, home } : Buffer).run
          (after.filterMap (Step.onBuffer? p (opened before)))).2.file

theorem conclude_responds {p : Plugin} (hbuffers : p.buffers = []) (herror : p.error? = none)
    (backtrace : Error → String) (steps : List Step) :
    Responds p backtrace steps (Plugin.conclude backtrace (generator steps p)) := by
  have hlength : p.buffers.length = 0 := by rw [hbuffers]; rfl
  constructor
  · intro e he
    obtain ⟨p', hp'⟩ := generator_eq_error steps p e (by rw [hlength]; exact he)
    rw [hp']
    rfl
  · intro hfault message hmessage
    obtain ⟨p', hp', advances⟩ := generator_advances steps p (by rw [hlength]; exact hfault)
    have herror' : p'.error? = some message := by
      rw [advances.error, herror, Option.none_or, hmessage]
    rw [hp', Plugin.conclude, Plugin.response, herror']
  · intro hfault hreports
    obtain ⟨p', hp', advances⟩ := generator_advances steps p (by rw [hlength]; exact hfault)
    have herror' : p'.error? = none := by
      rw [advances.error, herror, hreports]
      rfl
    refine ⟨p'.buffers.map (·.file), ?_, ?_, ?_⟩
    · rw [hp', Plugin.conclude, Plugin.response, herror', advances.supportedFeatures]
    · rw [List.length_map, advances.length, hlength, Nat.zero_add]
    · rintro before name home after rfl
      have hbuffer := buffer_of_opening (by rw [hlength]; exact hfault) hp'
      rw [hlength, Nat.zero_add] at hbuffer
      rw [List.getElem?_map, hbuffer]
      rfl

end Script

namespace Plugin

variable (r : Request) (scheme : ImportScheme) (features : Nat)

/-- A request is refused if it names no files or none to generate, or if its files make no
schema. -/
theorem exists_ofRequest_eq_error_iff : (∃ e, ofRequest r scheme features = .error e) ↔
    r.files = [] ∨ r.filesToGenerate = [] ∨
      ∃ e, Schema.ofFiles scheme r.files r.filesToGenerate = .error e := by
  unfold ofRequest
  by_cases hfiles : r.files = []
  · simp [hfiles]
  by_cases hgenerate : r.filesToGenerate = []
  · simp [hfiles, hgenerate]
  cases Schema.ofFiles scheme r.files r.filesToGenerate with
  | error e => simp [hfiles, hgenerate, bind, Except.bind]
  | ok s => simp [hfiles, hgenerate, bind, Except.bind, pure, Except.pure]

variable {r scheme features} in
theorem ofRequest_eq_ok {s : Schema} (hfiles : r.files ≠ []) (hgenerate : r.filesToGenerate ≠ [])
    (h : Schema.ofFiles scheme r.files r.filesToGenerate = .ok s) :
    ofRequest r scheme features = .ok (start r s features) := by
  simp [ofRequest, hfiles, hgenerate, h, bind, Except.bind, pure, Except.pure]

end Plugin

namespace Request

variable (r : Request) (scheme : ImportScheme) (features : Nat) (backtrace : Error → String)

/-- A generator is run on what becomes of the request, and whatever it does, there is a response. -/
theorem process_eq [WorkingDirectory] (generator : Generator) :
    r.process generator scheme features backtrace =
      (Plugin.ofRequest r scheme features).map fun p => Plugin.conclude backtrace (generator p) := by
  unfold process
  cases Plugin.ofRequest r scheme features <;> rfl

/-- Requests are answered all or nothing.  A request is refused without a look at the generator,
exactly if it names no files or none to generate or its files make no schema.  Otherwise there is a
response to every script that the generator may follow, and `Script.Responds` says which. -/
theorem process_all_or_nothing [WorkingDirectory] :
    (∀ generator : Generator, (∃ e, r.process generator scheme features backtrace = .error e) ↔
      r.files = [] ∨ r.filesToGenerate = [] ∨
        ∃ e, Schema.ofFiles scheme r.files r.filesToGenerate = .error e) ∧
    (∀ (generator generator' : Generator) (e : Error),
      r.process generator scheme features backtrace = .error e →
        r.process generator' scheme features backtrace = .error e) ∧
    ∀ s, r.files ≠ [] → r.filesToGenerate ≠ [] →
      Schema.ofFiles scheme r.files r.filesToGenerate = .ok s → ∀ steps, ∃ response,
        r.process (Script.generator steps) scheme features backtrace = .ok response ∧
          Script.Responds (Plugin.start r s features) backtrace steps response := by
  refine ⟨fun generator => ?_, fun generator generator' e h => ?_, ?_⟩
  · rw [← Plugin.exists_ofRequest_eq_error_iff r scheme features]
    simp only [process_eq]
    cases Plugin.ofRequest r scheme features <;> simp [Except.map]
  · rw [process_eq] at h ⊢
    cases hp : Plugin.ofRequest r scheme features with
    | error e' =>
      rw [hp] at h
      exact h
    | ok p => simp [hp, Except.map] at h
  · intro s hfiles hgenerate hs steps
    refine ⟨_, ?_, Script.conclude_responds rfl rfl backtrace steps⟩
    rw [process_eq, Plugin.ofRequest_eq_ok hfiles hgenerate hs]
    rfl

/-- The text for the first buffer comes after the second one is opened. -/
theorem process_all_or_nothing_late_line :
    let : WorkingDirectory := .ofPath ['/']
    ∃ files, process { files := [{ name := "a.proto" }], filesToGenerate := ["a.proto"] }
        (Script.generator [.newBuffer "first" default, .newBuffer "second" default,
          .line 0 [.plain (.text "late")]]) .bundled 0 = .ok (.generated 0 files) ∧
      files.length = 2 ∧ files[0]? = some ⟨"first", "late"⟩ := by
  intro root
  have ok : (Schema.ofFiles .bundled [{ name := "a.proto" }] ["a.proto"]).isOk := by decide +kernel
  cases hs : Schema.ofFiles .bundled [{ name := "a.proto" }] ["a.proto"] with
  | error e => simp [hs, Except.isOk, Except.toBool] at ok
  | ok s =>
    obtain ⟨response, hresponse, responds⟩ := (process_all_or_nothing
      { files := [{ name := "a.proto" }], filesToGenerate := ["a.proto"] } .bundled 0
        fun _ => "").2.2 s (by simp) (by simp) hs [.newBuffer "first" default,
          .newBuffer "second" default, .line 0 [.plain (.text "late")]]
    obtain ⟨files, rfl, hlength, hfiles⟩ := responds.generated rfl rfl
    exact ⟨files, hresponse, hlength, hfiles [] _ _ _ rfl⟩

end Request

end Protolink
