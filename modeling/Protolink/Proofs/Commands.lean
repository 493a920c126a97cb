import Protolink.Console
import Protolink.Listing
import Protolink.Proofs.Encoding
import Protolink.Proofs.Faults
import Protolink.Proofs.Response

/-!
# What a command leaves behind

A command ends in one of two ways, whatever bytes it is given and whatever its generator does: with
the response to the request, or with the report of why the request is refused.  The errors that a
command does not report itself cannot get to it: those of a generator end up in the response, and
before the generator runs, a request is refused for its bytes, for what it does not name, or with a
fault of its descriptors.

Which bytes hold a request, and which bytes a response is written as, is up to a codec.  All that is
asked of it is that it agrees with its caller on what is sent.

Main statement: `Console.run_answers`.
-/

namespace Protolink

namespace Console

variable {codec : Wire.Codec} {input : Wire.Bytes}

/-- Why bytes are no request that a generator is run on. -/
inductive Refusal (codec : Wire.Codec) (input : Wire.Bytes) : Error → Prop
  | undecodable (h : codec.readRequest input = none) : Refusal codec input .undecodable
  | noFiles {r : Request} (h : codec.readRequest input = some r) (files : r.files = []) :
    Refusal codec input .noFiles
  | noFilesToGenerate {r : Request} (h : codec.readRequest input = some r) (files : r.files ≠ [])
    (wanted : r.filesToGenerate = []) : Refusal codec input .noFilesToGenerate
  | schema {r : Request} {e : Error} (h : codec.readRequest input = some r) (files : r.files ≠ [])
    (wanted : r.filesToGenerate ≠ [])
    (fault : Schema.ofFiles .standard r.files r.filesToGenerate = .error e) :
    Refusal codec input e

/-- Refusals are reported. -/
theorem Refusal.isReported {e : Error} (h : Refusal codec input e) : isReported e = true := by
  unfold Console.isReported
  cases h with
  | undecodable h => rfl
  | noFiles h files => rfl
  | noFilesToGenerate h files wanted => rfl
  | schema h files wanted fault =>
    rw [Schema.ofFiles_faults .standard fault, Bool.true_or, Bool.true_or]

/-- Bytes are refused for one of these reasons, or they are a request that makes a schema. -/
theorem refusal_or_ofFiles (codec : Wire.Codec) (input : Wire.Bytes) :
    (∃ e, Refusal codec input e) ∨
      ∃ r s, codec.readRequest input = some r ∧ r.files ≠ [] ∧ r.filesToGenerate ≠ [] ∧
        Schema.ofFiles .standard r.files r.filesToGenerate = .ok s := by
  cases hr : codec.readRequest input with
  | none => exact .inl ⟨_, .undecodable hr⟩
  | some r =>
    by_cases files : r.files = []
    · exact .inl ⟨_, .noFiles hr files⟩
    by_cases wanted : r.filesToGenerate = []
    · exact .inl ⟨_, .noFilesToGenerate hr files wanted⟩
    cases hs : Schema.ofFiles .standard r.files r.filesToGenerate with
    | error e => exact .inl ⟨e, .schema hr files wanted hs⟩
    | ok s => exact .inr ⟨r, s, rfl, files, wanted, hs⟩

section Runs

variable [WorkingDirectory] (generator : Generator) (backtrace : Error → String)

theorem respond_of_refusal {e : Error} (h : Refusal codec input e) :
    respond codec generator input backtrace = .error e := by
  cases h with
  | undecodable h => rw [respond, h]
  | @noFiles r h files =>
    simp only [respond, h, Request.process_eq, Plugin.ofRequest, files, if_true, Except.map]
  | @noFilesToGenerate r h files wanted =>
    simp only [respond, h, Request.process_eq, Plugin.ofRequest, files, wanted, if_true, if_false,
      Except.map]
  | @schema r e h files wanted fault =>
    simp only [respond, h, Request.process_eq, Plugin.ofRequest, files, wanted, if_false, fault,
      bind, Except.bind, Except.map]

theorem respond_of_readRequest {r : Request} (h : codec.readRequest input = some r) :
    respond codec generator input backtrace =
      r.process generator .standard Plugin.optionalFields backtrace := by
  rw [respond, h]

/-- Whatever a generator does on a schema, there is a response. -/
theorem exists_response {r : Request} {s : Schema} (files : r.files ≠ [])
    (wanted : r.filesToGenerate ≠ [])
    (hs : Schema.ofFiles .standard r.files r.filesToGenerate = .ok s) :
    ∃ response, r.process generator .standard Plugin.optionalFields backtrace = .ok response := by
  rw [Request.process_eq, Plugin.ofRequest_eq_ok files wanted hs]
  exact ⟨_, rfl⟩

/-- What a run leaves that has a response. -/
theorem run_of_ok (level : String) {response : Response}
    (h : respond codec generator input backtrace = .ok response) :
    run codec level generator input backtrace = ⟨0, codec.writeResponse response,
      if logsEvents level then log (events codec generator input) else ""⟩ := by
  simp only [run, h]

/-- What a run leaves of bytes that are refused. -/
theorem run_of_refusal (level : String) {e : Error} (h : Refusal codec input e) :
    run codec level generator input backtrace = ⟨1, [],
      (if logsEvents level then log (events codec generator input) else "")
        ++ "protoc plugin error: " ++ e.message ++ "\n"⟩ := by
  simp only [run, respond_of_refusal generator backtrace h, h.isReported, if_true]

/-- Only requests that are refused have no response. -/
theorem refusal_of_process {r : Request} {e : Error} (h : codec.readRequest input = some r)
    (he : r.process generator .standard Plugin.optionalFields backtrace = .error e) :
    Refusal codec input e := by
  have error := respond_of_readRequest generator backtrace h
  rw [he] at error
  rcases refusal_or_ofFiles codec input with ⟨e', he'⟩ | ⟨r', s, hr', files, wanted, hs⟩
  · rw [respond_of_refusal generator backtrace he'] at error
    obtain rfl := Except.error.inj error
    exact he'
  · obtain rfl : r = r' := Option.some.inj (h.symm.trans hr')
    obtain ⟨response, hp⟩ := exists_response generator backtrace files wanted hs
    rw [hp] at he
    cases he

/-- A run refuses its bytes or answers the request in them. -/
theorem run_cases (level : String) (input : Wire.Bytes) :
    let logged := if logsEvents level then log (events codec generator input) else ""
    ((∃ e, Refusal codec input e ∧ run codec level generator input backtrace =
        ⟨1, [], logged ++ "protoc plugin error: " ++ e.message ++ "\n"⟩) ∨
      ∃ r response, codec.readRequest input = some r ∧
        r.process generator .standard Plugin.optionalFields backtrace = .ok response ∧
        run codec level generator input backtrace = ⟨0, codec.writeResponse response, logged⟩) ∧
    ((run codec level generator input backtrace).status = 1 ↔ ∃ e, Refusal codec input e) := by
  intro logged
  rcases refusal_or_ofFiles codec input with ⟨e, he⟩ | ⟨r, s, hr, files, wanted, hs⟩
  · have refused := run_of_refusal generator backtrace level he
    refine ⟨.inl ⟨e, he, refused⟩, fun _ => ⟨e, he⟩, fun _ => ?_⟩
    rw [refused]
  · obtain ⟨response, hp⟩ := exists_response generator backtrace files wanted hs
    have responds := (respond_of_readRequest generator backtrace hr).trans hp
    have answered := run_of_ok generator backtrace level responds
    refine ⟨.inr ⟨r, response, hr, hp, answered⟩, fun hstatus => ?_, ?_⟩
    · rw [answered] at hstatus
      exact absurd hstatus nofun
    · rintro ⟨e, he⟩
      rw [respond_of_refusal generator backtrace he] at responds
      exact absurd responds nofun

/-- On any bytes a command ends in one of two ways.  Either it succeeds and its output is exactly
the response to the request in the bytes, or it fails without output and with one line about why
the bytes are refused; and it fails exactly if they are.  No backtrace is ever left.  A caller that
the codec agrees with is answered what it asked for: if its request is refused, it gets the line
about that, and otherwise it reads the response to its request from the output. -/
theorem run_answers {caller : Wire.Caller} (agree : Wire.Agree codec caller) (level : String) :
    (∀ input,
      let logged := if logsEvents level then log (events codec generator input) else ""
      ((∃ e, Refusal codec input e ∧ run codec level generator input backtrace =
          ⟨1, [], logged ++ "protoc plugin error: " ++ e.message ++ "\n"⟩) ∨
        ∃ r response, codec.readRequest input = some r ∧
          r.process generator .standard Plugin.optionalFields backtrace = .ok response ∧
          run codec level generator input backtrace =
            ⟨0, codec.writeResponse response, logged⟩) ∧
      ((run codec level generator input backtrace).status = 1 ↔ ∃ e, Refusal codec input e)) ∧
    ∀ r, caller.sends r →
      let logged := if logsEvents level then log (r.events generator) else ""
      let outcome := run codec level generator (caller.writeRequest r) backtrace
      (∀ e, r.process generator .standard Plugin.optionalFields backtrace = .error e →
        outcome = ⟨1, [], logged ++ "protoc plugin error: " ++ e.message ++ "\n"⟩) ∧
      ∀ response, r.process generator .standard Plugin.optionalFields backtrace = .ok response →
        outcome = ⟨0, codec.writeResponse response, logged⟩ ∧
        (caller.receives response → caller.readResponse outcome.output = some response) := by
  refine ⟨run_cases generator backtrace level, fun r hr => ?_⟩
  intro logged outcome
  have read := agree.request r hr
  have logs : events codec generator (caller.writeRequest r) = r.events generator := by
    rw [events, read]
  refine ⟨fun e he => ?_, fun response hp => ?_⟩
  · have refused := refusal_of_process generator backtrace read he
    simp only [outcome, run_of_refusal generator backtrace level refused, logs, logged]
  · have responds := (respond_of_readRequest generator backtrace read).trans hp
    have answered : outcome = ⟨0, codec.writeResponse response, logged⟩ := by
      simp only [outcome, run_of_ok generator backtrace level responds, logs, logged]
    refine ⟨answered, fun received => ?_⟩
    rw [answered]
    exact agree.response response received

end Runs

/-- A request for a file that imports another one. -/
def askedRequest : Request where
  files := [
    { name := "base.proto", package := "base" },
    { name := "top.proto", dependencies := ["base.proto"] }]
  filesToGenerate := ["top.proto"]
  parameter := "lang=ts"

/-- What `askedRequest` is answered by the generator of listings. -/
def askedResponse : Response :=
  .generated 1 [⟨"top.out", "\n".intercalate [
    "# Generated code output.",
    "# source: top.proto",
    "",
    "dependencies:",
    "- name: base.proto",
    "  num_dependencies: 0",
    "  num_messages: 0",
    "  num_enums: 0",
    "  num_services: 0",
    "  num_extensions: 0",
    "",
    "messages:",
    "",
    "enums:",
    "",
    "services:",
    "",
    "extensions:"]⟩]

/-- The binary codec agrees with a caller that asks for imports, and this one reads the response. -/
theorem run_answers_askedRequest :
    letI : WorkingDirectory := .ofPath ['/']
    let caller := Wire.importsCaller
    let outcome := run Wire.binary "WARNING" Listing.generator (caller.writeRequest askedRequest)
    Wire.Agree Wire.binary caller ∧ caller.sends askedRequest ∧
      outcome.status = 0 ∧ outcome.report = "" ∧
      caller.readResponse outcome.output = some askedResponse := by
  intro caller outcome
  have sends : caller.sends askedRequest := ⟨by simp [askedRequest, Wire.DeclaresNothing],
    by decide +kernel⟩
  have response : letI : WorkingDirectory := .ofPath ['/']
      askedRequest.process Listing.generator .standard = .ok askedResponse := by decide +kernel
  have receives : caller.receives askedResponse :=
    ⟨by decide +kernel, fun features files h => by cases h; decide⟩
  obtain ⟨ran, read⟩ := ((@run_answers Wire.binary (.ofPath ['/']) Listing.generator (fun _ => "")
    caller Wire.binary_agrees "WARNING").2 askedRequest sends).2 askedResponse response
  refine ⟨Wire.binary_agrees, sends, ?_, ?_, read receives⟩
  · exact congrArg Outcome.status ran
  · exact congrArg Outcome.report ran

end Console

end Protolink
