import Mathlib.Data.List.Basic
import Protolink.Proofs.Response

/-!
# Buffers are independent

A script may go back and forth between its buffers.  `Script.apart` takes the script to pieces: each
buffer goes through the steps that are for it, as if there were no other buffer.  A script that does
not fail leaves just these buffers, so it does not matter how the steps for different buffers are
mixed, as long as those for one buffer keep their order.
-/

namespace Protolink

namespace Script

variable {p p' : Plugin} {xs ys steps before rest : List Step} {created : Nat}

/-! ## Scripts in order -/

/-- The buffer that a step is for. -/
def Step.buffer? : Step → Option Nat
  | .line n _ | .spell n _ | .buffer n _ => some n
  | _ => none

/-- Every step for a buffer comes after the buffer is opened, if so many are there before the first
step. -/
def Orderly (created : Nat) : List Step → Prop
  | [] => True
  | step :: steps => (∀ n ∈ step.buffer?, n < created) ∧ Orderly (created + opened [step]) steps

instance Orderly.decidable (created : Nat) :
    (steps : List Step) → Decidable (Orderly created steps)
  | [] => .isTrue trivial
  | step :: steps =>
    have := decidable (created + opened [step]) steps
    inferInstanceAs (Decidable ((∀ n ∈ step.buffer?, n < created) ∧ _))

/-- Scripts with the same steps, in which the openings of buffers come in the same order, and so do
the reports and the steps for each single buffer. -/
structure Reorders (xs ys : List Step) : Prop where
  perm : xs.Perm ys
  openings : xs.filterMap Step.opens? = ys.filterMap Step.opens?
  reports : xs.filterMap Step.report? = ys.filterMap Step.report?
  buffers : ∀ n, xs.filter (·.buffer? == some n) = ys.filter (·.buffer? == some n)

theorem Step.onBuffer?_of_ne {step : Step} {n : Nat} (h : step.buffer? ≠ some n) :
    step.onBuffer? p n = none := by
  cases step with
  | line k pieces => exact if_neg fun hk => h (congrArg some hk)
  | spell k piece =>
    have hk : k ≠ n := fun hk => h (congrArg some hk)
    cases hpiece : piece.resolve p with
    | text s => simp only [onBuffer?, hpiece]
    | ident i => simp only [onBuffer?, hpiece, if_neg hk]
  | buffer k step => exact if_neg fun hk => h (congrArg some hk)
  | _ => rfl

/-- What a script does with a buffer is in the steps that are for it. -/
theorem filterMap_onBuffer? (p : Plugin) (n : Nat) (steps : List Step) :
    steps.filterMap (Step.onBuffer? p n) =
      (steps.filter (·.buffer? == some n)).filterMap (Step.onBuffer? p n) := by
  rw [List.filterMap_filter]
  refine List.filterMap_congr fun step _ => ?_
  split
  · rfl
  · next h => exact Step.onBuffer?_of_ne (by simpa using h)

/-- The steps in front are for buffers that are opened by then. -/
theorem Orderly.lt (h : Orderly created (before ++ rest)) :
    ∀ step ∈ before, ∀ n ∈ step.buffer?, n < created + opened before := by
  induction before generalizing created with
  | nil => nofun
  | cons first before ih =>
    obtain ⟨hfirst, hrest⟩ := h
    have hopened : opened (first :: before) = opened [first] + opened before :=
      opened_append [first] before
    rw [List.forall_mem_cons, hopened, ← Nat.add_assoc]
    refine ⟨fun n hn => ?_, ih hrest⟩
    have lt := hfirst n hn
    omega

/-! ## Scripts that do not fail -/

/-- A step on a buffer that is there raises what it would raise with any number of buffers. -/
theorem Step.fault?_eq_none {step : Step} (h : step.fault? created = none)
    (hn : ∀ n ∈ step.buffer?, n < created) (n : Nat) : step.fault? n = none := by
  cases step with
  | fail message => cases h
  | buffer k step =>
    cases step with
    | setIndent level =>
      have hk : k < created := hn k rfl
      have hlevel : ¬level < 0 := fun hlevel => by simp [fault?, hk, hlevel] at h
      exact if_neg fun both => hlevel both.2
    | _ => rfl
  | _ => rfl

theorem fault?_eq_none_iff (h : Orderly created steps) :
    fault? created steps = none ↔ ∀ step ∈ steps, ∀ n, step.fault? n = none := by
  induction steps generalizing created with
  | nil => exact iff_of_true rfl nofun
  | cons step steps ih =>
    rw [fault?, Option.or_eq_none_iff, ih h.2, List.forall_mem_cons]
    refine and_congr_left fun _ => ⟨fun hstep => ?_, fun hstep => hstep created⟩
    exact Step.fault?_eq_none hstep h.1

section Runs

variable [WorkingDirectory]

theorem fault?_of_ok (h : generator steps p = .ok () p') :
    fault? p.buffers.length steps = none := by
  cases hfault : fault? p.buffers.length steps with
  | none => rfl
  | some e =>
    obtain ⟨q, hq⟩ := generator_eq_error steps p e hfault
    rw [h] at hq
    cases hq

theorem advances_of_ok (h : generator steps p = .ok () p') : Advances p steps p' := by
  obtain ⟨q, hq, advances⟩ := generator_advances steps p (fault?_of_ok h)
  obtain rfl : q = p' := (EStateM.Result.ok.inj (hq.symm.trans h)).2
  exact advances

/-- Whether a script fails does not depend on the order of its steps. -/
theorem Reorders.exists_ok (h : Reorders xs ys) (hx : Orderly p.buffers.length xs)
    (hy : Orderly p.buffers.length ys) (hp : generator xs p = .ok () p') :
    ∃ q, generator ys p = .ok () q := by
  have harmless := (fault?_eq_none_iff hx).mp (fault?_of_ok hp)
  have hfault : fault? p.buffers.length ys = none :=
    (fault?_eq_none_iff hy).mpr fun step hstep => harmless step (h.perm.mem_iff.mpr hstep)
  obtain ⟨q, hq, -⟩ := generator_advances ys p hfault
  exact ⟨q, hq⟩

/-! ## Buffers on their own -/

/-- The buffers that a script opens, after each of them went through its own steps. -/
def apart (p : Plugin) (steps : List Step) : List Buffer :=
  (steps.filterMap Step.opens?).zipIdx.map fun b =>
    (b.1.run (steps.filterMap (Step.onBuffer? p b.2))).2

/-- The response of a plugin that starts as `p`, when each buffer went through its own steps. -/
def apartResponse (p : Plugin) (steps : List Step) : Response :=
  match (steps.filterMap Step.report?).head? with
  | some message => .failed message
  | none => .generated p.supportedFeatures ((apart p steps).map (·.file))

theorem Reorders.apart_eq (h : Reorders xs ys) : apart p xs = apart p ys := by
  rw [apart, apart, h.openings]
  refine List.map_congr_left fun b _ => ?_
  rw [filterMap_onBuffer? p b.2 xs, filterMap_onBuffer? p b.2 ys, h.buffers]

omit [WorkingDirectory] in
theorem exists_opening {n : Nat} {b : Buffer} (h : (steps.filterMap Step.opens?)[n]? = some b) :
    ∃ before name home after, steps = before ++ .newBuffer name home :: after ∧
      opened before = n ∧ b = { name, home } := by
  obtain ⟨hn, rfl⟩ := List.getElem?_eq_some_iff.mp h
  have split := (List.take_append_drop n (steps.filterMap Step.opens?)).symm
  rw [List.drop_eq_getElem_cons hn] at split
  obtain ⟨before, rest, rfl, hbefore, hrest⟩ := List.filterMap_eq_append_iff.mp split
  obtain ⟨others, step, after, rfl, hothers, hstep, -⟩ := List.filterMap_eq_cons_iff.mp hrest
  have hopened : opened (before ++ others) = n := by
    have none : others.filterMap Step.opens? = [] := List.filterMap_eq_nil_iff.mpr hothers
    rw [opened, List.filterMap_append, none, List.append_nil, hbefore, List.length_take]
    exact Nat.min_eq_left (Nat.le_of_lt hn)
  cases step with
  | newBuffer name home =>
    refine ⟨before ++ others, name, home, after, ?_, hopened, ?_⟩
    · rw [List.append_assoc]
    · exact (Option.some.inj hstep).symm
  | _ => cases hstep

/-- A script that does not fail leaves the buffers that it opens, each as its own steps make it. -/
theorem buffers_eq_apart (h : Orderly 0 steps) (hbuffers : p.buffers = [])
    (hp : generator steps p = .ok () p') : p'.buffers = apart p steps := by
  have hlength : p.buffers.length = 0 := by rw [hbuffers, List.length_nil]
  have advances := advances_of_ok hp
  apply List.ext_getElem?
  intro n
  rw [apart, List.getElem?_map, List.getElem?_zipIdx]
  cases hb : (steps.filterMap Step.opens?)[n]? with
  | none =>
    rw [Option.map_none, Option.map_none, List.getElem?_eq_none_iff, advances.length, hlength,
      Nat.zero_add]
    exact List.getElem?_eq_none_iff.mp hb
  | some b =>
    obtain ⟨before, name, home, after, rfl, rfl, rfl⟩ := exists_opening hb
    have hbuffer := buffer_of_opening (fault?_of_ok hp) hp
    -- No step is for the buffer before it is opened.
    have early : before.filterMap (Step.onBuffer? p (opened before)) = [] := by
      rw [List.filterMap_eq_nil_iff]
      intro step hstep
      refine Step.onBuffer?_of_ne fun hn => ?_
      have lt := h.lt step hstep _ hn
      omega
    rw [hlength, Nat.zero_add] at hbuffer
    rw [hbuffer, Option.map_some, Option.map_some, List.filterMap_append, Nat.zero_add, early,
      List.nil_append, List.filterMap_cons_none rfl]

theorem conclude_eq_apartResponse (h : Orderly 0 steps) (hbuffers : p.buffers = [])
    (herror : p.error? = none) (hp : generator steps p = .ok () p') (backtrace : Error → String) :
    Plugin.conclude backtrace (generator steps p) = apartResponse p steps := by
  have advances := advances_of_ok hp
  rw [hp, Plugin.conclude, Plugin.response, advances.error, herror, Option.none_or,
    advances.supportedFeatures, buffers_eq_apart h hbuffers hp]
  rfl

end Runs

/-- Two buffers, one after the other. -/
def inTurn : List Step := [
  .newBuffer "first" ⟨"first.ts", "", ""⟩,
  .buffer 0 (.setIndent 2),
  .line 0 [.plain (.text "one")],
  .newBuffer "second" ⟨"second.ts", "", ""⟩,
  .buffer 1 .markImports,
  .line 1 [.plain (.ident ⟨⟨"base.ts", "", ""⟩, "Item"⟩)],
  .line 1 [.plain (.text "two")]]

/-- The steps of `inTurn`, with those for the two buffers mixed. -/
def mixed : List Step := [
  .newBuffer "first" ⟨"first.ts", "", ""⟩,
  .newBuffer "second" ⟨"second.ts", "", ""⟩,
  .buffer 1 .markImports,
  .line 1 [.plain (.ident ⟨⟨"base.ts", "", ""⟩, "Item"⟩)],
  .buffer 0 (.setIndent 2),
  .line 1 [.plain (.text "two")],
  .line 0 [.plain (.text "one")]]

theorem reorders_mixed : Reorders inTurn mixed where
  perm := by
    refine List.Perm.cons _ ?_
    refine (@List.perm_middle _ _ [_, _] _).trans (List.Perm.cons _ ?_)
    refine (@List.perm_middle _ _ [_, _] _).trans (List.Perm.cons _ ?_)
    refine (@List.perm_middle _ _ [_, _] _).trans (List.Perm.cons _ ?_)
    exact List.Perm.cons _ (List.Perm.swap _ _ _)
  openings := rfl
  reports := rfl
  buffers n := by
    match n with
    | 0 => rfl
    | 1 => rfl
    | n + 2 => rfl

end Script

/-- A plugin starts with no buffers and without an error. -/
theorem Plugin.start_of_ofRequest {r : Request} {scheme : ImportScheme} {features : Nat}
    {p : Plugin} (h : ofRequest r scheme features = .ok p) :
    p.buffers = [] ∧ p.error? = none := by
  unfold ofRequest at h
  split at h
  · cases h
  · split at h
    · cases h
    · cases hs : Schema.ofFiles scheme r.files r.filesToGenerate with
      | error e =>
        rw [hs] at h
        cases h
      | ok s =>
        rw [hs] at h
        obtain rfl := Except.ok.inj h
        exact ⟨rfl, rfl⟩

namespace Request

open Script

/-- Buffers are independent.  When a script that a generator follows does not fail, neither does the
script in another order that keeps what is for one buffer in order, and the request has the same
response: the one in which each buffer goes through its own steps and knows of no other. -/
theorem process_reordered [WorkingDirectory] (r : Request) (scheme : ImportScheme) (features : Nat)
    (backtrace : Error → String) {xs ys : List Step} (h : Reorders xs ys) (hx : Orderly 0 xs)
    (hy : Orderly 0 ys) (ok : ∀ p, Plugin.ofRequest r scheme features = .ok p →
      ∃ p', generator xs p = .ok () p') :
    r.process (generator ys) scheme features backtrace =
      r.process (generator xs) scheme features backtrace ∧
    r.process (generator xs) scheme features backtrace =
      (Plugin.ofRequest r scheme features).map fun p => apartResponse p xs := by
  rw [process_eq, process_eq]
  cases hp : Plugin.ofRequest r scheme features with
  | error e => exact ⟨rfl, rfl⟩
  | ok p =>
    obtain ⟨hbuffers, herror⟩ := Plugin.start_of_ofRequest hp
    have hlength : p.buffers.length = 0 := by rw [hbuffers, List.length_nil]
    obtain ⟨px, hpx⟩ := ok p hp
    obtain ⟨py, hpy⟩ := h.exists_ok (hlength ▸ hx) (hlength ▸ hy) hpx
    have same : apartResponse p ys = apartResponse p xs := by
      rw [apartResponse, apartResponse, h.apart_eq, h.reports]
    simp only [Except.map]
    rw [conclude_eq_apartResponse hx hbuffers herror hpx,
      conclude_eq_apartResponse hy hbuffers herror hpy, same]
    exact ⟨rfl, rfl⟩

/-- Neither the level of the first buffer nor the import of the second one gets into the other. -/
theorem process_reordered_mixed :
    letI : WorkingDirectory := .ofPath ['/']
    process { files := [{ name := "a.proto" }], filesToGenerate := ["a.proto"] }
      (generator mixed) .bundled 0 (fun _ => "") = .ok (.generated 0 [⟨"first", "  one"⟩,
        ⟨"second", "import * as _base from \"./base\";\n_base.Item\ntwo"⟩]) := by
  let : WorkingDirectory := .ofPath ['/']
  have ok (p : Plugin) (hp : Plugin.ofRequest
      { files := [{ name := "a.proto" }], filesToGenerate := ["a.proto"] } .bundled 0 = .ok p) :
      ∃ p', generator inTurn p = .ok () p' := by
    have fault : fault? p.buffers.length inTurn = none := by
      rw [(Plugin.start_of_ofRequest hp).1]
      rfl
    obtain ⟨p', hp', -⟩ := generator_advances inTurn p fault
    exact ⟨p', hp'⟩
  have same := @process_reordered _ _ .bundled 0 (fun _ => "") _ _ reorders_mixed (by decide)
    (by decide) ok
  exact same.1.trans (by decide +kernel)

end Request

end Protolink
