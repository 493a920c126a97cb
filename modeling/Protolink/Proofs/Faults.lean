import Protolink.Proofs.Drafting

/-!
# Which errors stop the assembly of a schema

The files of a request are declared before any of them is linked, so links find every node blank and
never meet a reference that is set already.  What is left for them to fail with are references that
mean nothing.  So the assembly of a schema fails only with a fault of the descriptors: this is
`Schema.ofFiles_faults`.  It holds of a link for itself only if nothing was linked before; a file
that is linked twice fails otherwise.
-/

namespace Protolink

variable {σ β α : Type}

/-- A step that goes through does not fail. -/
theorem Yields.faults {t : EStateM Error σ Unit} {s s' : σ} {P : Prop} (h : Yields t s P s')
    (hP : P) : Faults t s := faults_of_ok ((h s').mpr ⟨hP, rfl⟩)

/-- The second step starts from where the first one leaves off if it goes through. -/
theorem Faults.seq_yields {t u : EStateM Error σ Unit} {s s' : σ} {P : Prop} (ht : Faults t s)
    (h : Yields t s P s') (hu : P → Faults u s') : Faults (t >>= fun _ => u) s := by
  refine ht.seq fun _ s₁ hs₁ => ?_
  obtain ⟨hP, rfl⟩ := (h s₁).mp hs₁
  exact hu hP

/-- A step that is done only if it is wanted. -/
theorem Faults.ite {t : EStateM Error σ Unit} {s : σ} (c : Bool) (h : Faults t s) :
    Faults (fun s => if c then t s else .ok () s) s := by
  cases c with
  | true => exact h
  | false => exact faults_of_ok rfl

theorem faults_forM {step : α → EStateM Error σ Unit} (h : ∀ a s, Faults (step a) s) :
    ∀ (as : List α) (s : σ), Faults (as.forM step) s
  | [], _ => faults_of_ok rfl
  | a :: as, s => (h a s).seq fun _ s' _ => faults_forM h as s'

namespace Link

theorem faults_determine {q : σ → Except Error α} {k : α → Link σ Unit} {s : σ}
    (hq : ∀ e, q s = .error e → e.isDescriptorFault = true)
    (hk : ∀ a, q s = .ok a → Faults (k a) s) : Faults (determine q >>= k) s := by
  cases hqs : q s with
  | ok a =>
    have done : determine q s = .ok a s := by simp only [determine, hqs]
    refine (faults_of_ok done).seq fun b s' h => ?_
    obtain ⟨hb, rfl⟩ := determine_eq_ok_iff.mp h
    exact hk b hb
  | error e =>
    have failed : determine q s = .error e s := by simp only [determine, hqs]
    refine (faults_of_error failed (hq e hqs)).seq fun b s' h => ?_
    cases failed.symm.trans h

theorem faults_update {f : σ → Except Error σ} {s : σ}
    (hf : ∀ e, f s = .error e → e.isDescriptorFault = true) : Faults (update f) s := by
  cases hfs : f s with
  | ok s' => exact faults_of_ok (update_eq_ok_iff.mpr hfs)
  | error e =>
    have failed : update f s = .error e s := by simp only [update, hfs]
    exact faults_of_error failed (hf e hfs)

theorem faults_within {part : σ → β} {put : β → σ → σ} {step : Link β Unit} {s : σ}
    (h : Faults step (part s)) : Faults (within part put step) s := by
  cases hb : step (part s) with
  | ok _ b =>
    have done : within part put step s = .ok () (put b s) := by simp only [within, hb]
    exact faults_of_ok done
  | error e b =>
    have failed : within part put step s = .error e (put b s) := by simp only [within, hb]
    exact faults_of_error failed (h _ _ hb)

/-- Two links on two parts of a whole, one after the other. -/
theorem faults_both {τ ρ : Type} {mk : σ → τ → ρ} {t : Link σ Unit} {u : Link τ Unit}
    {out : Link ρ Unit} {whole : ρ} {s : σ} {b : τ} (parts : out whole = both mk t s u b)
    (ht : Faults t s) (hu : Faults u b) : Faults out whole := by
  intro e c h
  rw [parts] at h
  unfold both at h
  cases hts : t s with
  | error e₁ s₁ =>
    rw [hts] at h
    obtain ⟨rfl, -⟩ := EStateM.Result.error.inj h
    exact ht _ _ hts
  | ok _ s₁ =>
    rw [hts] at h
    cases hub : u b with
    | error e₁ b₁ =>
      rw [hub] at h
      obtain ⟨rfl, -⟩ := EStateM.Result.error.inj h
      exact hu _ _ hub
    | ok _ b₁ =>
      rw [hub] at h
      exact absurd h nofun

theorem faults_each {wanted : β → Bool} {step : Link β Unit} {bs : List β}
    (h : ∀ b ∈ bs, Faults step b) : Faults (each wanted step) bs := by
  induction bs with
  | nil => exact faults_of_ok rfl
  | cons b bs ih =>
    rw [List.forall_mem_cons] at h
    exact faults_both (each_cons wanted step b bs) (h.1.ite (wanted b)) (ih h.2)

end Link

variable (r : Registry Symbol)

/-- Whether an error is about a reference that means nothing. -/
def Error.isUnresolved : Error → Bool
  | unknownDependency .. | unknownType .. | missingTypeName .. | unknownExtendee ..
  | unknownMethodType .. => true
  | _ => false

theorem Error.isDescriptorFault_of_isUnresolved {e : Error} (h : e.isUnresolved = true) :
    e.isDescriptorFault = true := by
  cases e <;> first | rfl | exact absurd h Bool.false_ne_true

/-! ## Fields and methods -/

namespace Field

theorem target_unresolved {f : Field} {e : Error} (h : f.target r = .error e) :
    e.isUnresolved = true := by
  unfold target at h
  split at h
  · exact absurd h nofun
  · split at h
    · obtain rfl := Except.error.inj h
      rfl
    · split at h
      · exact absurd h nofun
      · obtain rfl := Except.error.inj h
        rfl

theorem extended_unresolved {f : Field} {e : Error} (h : f.extended r = .error e) :
    e.isUnresolved = true := by
  unfold extended at h
  split at h
  · exact absurd h nofun
  · exact absurd h nofun
  · split at h
    · exact absurd h nofun
    · obtain rfl := Except.error.inj h
      rfl

theorem link_faults {f : Field} (h : f.IsOpen) : Faults (Field.link r) f := by
  have fault {e : Error} := e.isDescriptorFault_of_isUnresolved
  refine Link.faults_determine (fun _ h => fault (target_unresolved r h)) fun t _ => ?_
  have target := setTarget_yields t f
  refine (target.faults ⟨h.enumType, h.message⟩).seq_yields target fun _ => ?_
  refine Link.faults_determine (fun _ h => fault (extended_unresolved r h)) fun x _ => ?_
  exact (setExtendee_yields x _).faults h.extendee

end Field

namespace Method

theorem typeOf_unresolved {m : Method} {scope role typeName : String} {e : Error}
    (h : m.typeOf r scope role typeName = .error e) : e.isUnresolved = true := by
  unfold typeOf at h
  split at h
  · exact absurd h nofun
  · obtain rfl := Except.error.inj h
    rfl

theorem link_faults (scope : String) {m : Method} (h : m.Blank) :
    Faults (Method.link r scope) m := by
  have fault {e : Error} := e.isDescriptorFault_of_isUnresolved
  refine Link.faults_determine (fun _ h => fault (typeOf_unresolved r h)) fun i _ => ?_
  refine Link.faults_determine (fun _ h => fault (typeOf_unresolved r h)) fun o _ => ?_
  refine (setTypes_yields i o m).faults ⟨?_, ?_⟩
  · rw [h.input]
  · rw [h.output]

end Method

/-! ## Messages and services -/

theorem MessageBody.link_faults {b : MessageBody} (h : b.Blank) :
    Faults (MessageBody.link r) b := by
  have each {fs : List Field} (hfs : ∀ f ∈ fs, f.Blank) :
      Faults (Link.each (fun _ => true) (Field.link r)) fs :=
    Link.faults_each fun f hf => Field.link_faults r (hfs f hf).isOpen
  have fields := Link.yields_within (fun b : MessageBody => b.fields)
    (fun fs b => { b with fields := fs })
    (Link.yields_each (fun _ => true) (Field.link_yields r) b.fields)
  refine (Link.faults_within (each h.fields)).seq_yields fields fun _ => ?_
  refine Faults.seq (Link.faults_within (each h.extensions)) fun _ c _ => ?_
  exact (Link.yields_edit _ c).faults trivial

namespace Message

mutual

theorem link_faults : ∀ {m : Message}, m.Blank → Faults (Message.link r) m
  | ⟨body, nested⟩, h => by
    obtain ⟨hbody, hnested⟩ := blank_iff.mp h
    exact Link.faults_both (link_mk r body nested) (linkNested_faults body hnested)
      (MessageBody.link_faults r hbody)

theorem linkNested_faults (body : MessageBody) : ∀ {ms : List Message}, (∀ m ∈ ms, m.Blank) →
    Faults (Message.linkNested r body) ms
  | [], _ => faults_of_ok rfl
  | m :: ms, h => by
    rw [List.forall_mem_cons] at h
    exact Link.faults_both (linkNested_cons r body m ms)
      ((link_faults h.1).ite (body.lists m.toMessageBody)) (linkNested_faults body h.2)

end

end Message

theorem Service.link_faults {s : Service} (h : ∀ m ∈ s.methods, m.Blank) :
    Faults (Service.link r) s := by
  refine Link.faults_within (s := s) (Link.faults_each fun m hm => ?_)
  exact Method.link_faults r s.fullName (h m hm)

/-! ## Files and schemas -/

namespace File

theorem addDependency_faults {name : String} {f : File} {e : Error}
    (h : f.addDependency r name = .error e) : e.isDescriptorFault = true := by
  unfold addDependency at h
  split at h
  · exact absurd h nofun
  · obtain rfl := Except.error.inj h
    rfl

theorem link_faults {f : File} (h : f.Blank) : Faults (File.link r) f := by
  have dependencies := addDependencies_yields r f.dependencyNames f
  have messages (f : File) := Link.yields_within (fun f : File => f.ownMessages)
    (fun ms f => { f with ownMessages := ms })
    (Link.yields_each (·.isComplete) (Message.link_yields r) f.ownMessages)
  have services (f : File) := Link.yields_within (fun f : File => f.ownServices)
    (fun ss f => { f with ownServices := ss })
    (Link.yields_each (·.isComplete) (Service.link_yields r) f.ownServices)
  refine Faults.seq (faults_of_ok rfl) fun g f' hget => ?_
  obtain ⟨rfl, rfl⟩ := EStateM.Result.ok.inj hget
  refine Faults.seq_yields (faults_forM (fun n f => ?_) _ _) dependencies fun _ => ?_
  · exact Link.faults_update fun _ => addDependency_faults r
  refine (Link.faults_within (Link.faults_each fun m hm => ?_)).seq_yields (messages _) fun _ => ?_
  · exact Message.link_faults r (h.messages m hm)
  refine (Link.faults_within (Link.faults_each fun s hs => ?_)).seq_yields (services _) fun _ => ?_
  · exact Service.link_faults r (h.services s hs)
  refine Link.faults_within (Link.faults_each fun x hx => ?_)
  exact Field.link_faults r (h.extensions x hx).isOpen

end File

namespace Schema

variable (scheme : ImportScheme)

theorem linkAll_faults {s : Schema} (h : ∀ f ∈ s.files, f.Blank) : Faults linkAll s := by
  intro e s' he
  rw [linkAll_eq] at he
  refine Link.faults_within (Link.faults_each fun f hf => ?_) e s' he
  exact File.link_faults s.registry (h f hf)

/-- Nothing is followed before all files are declared. -/
theorem declareAll_grows (generate : FileDescriptor → Bool) (files : List FileDescriptor) :
    Moves Grows (files.forM fun d => declare scheme (generate d) d) :=
  .forM Grows.refl Grows.trans (fun d s => (declare_grows scheme (generate d) d s).1) files

theorem assemble_faults (files : List FileDescriptor) (wanted : List String) :
    Faults (assemble scheme files wanted) {} := by
  refine Faults.seq (faults_forM (fun d s => (declare_grows scheme _ d s).2) files {})
    fun _ s hs => ?_
  have grown := declareAll_grows scheme (fun d => wanted.contains d.name) files {}
  rw [leaves, hs, final] at grown
  obtain ⟨fs, blank, hfiles⟩ := grown.files
  rw [List.nil_append] at hfiles
  refine (linkAll_faults (hfiles ▸ blank)).seq fun _ t _ => ?_
  refine Faults.seq (faults_of_ok rfl) fun u t' _ => faults_forM (fun name v => ?_) wanted t'
  split
  · exact faults_of_ok rfl
  · exact faults_of_error rfl rfl

/-- Files that make no schema have a fault. -/
theorem ofFiles_faults {files : List FileDescriptor} {wanted : List String} {e : Error}
    (h : ofFiles scheme files wanted = .error e) : e.isDescriptorFault = true := by
  unfold ofFiles at h
  cases hs : assemble scheme files wanted {} with
  | ok _ s =>
    rw [hs] at h
    exact absurd h nofun
  | error e' s =>
    rw [hs] at h
    obtain rfl := Except.error.inj h
    exact assemble_faults scheme files wanted _ _ hs

end Schema

end Protolink
