import Orkano.Operator.BuildController.Walk

/-!
Whose Job a Build's status speaks of. The live confirm of a tracked Job does not check the
annotations, and the clean-up deletes by name what the cache showed under it.
-/
namespace Orkano.Operator.BuildController

open Interleave Program

variable {hash : String → String} {w w' : World} {key : Key} {t : ℕ}

section Witnessed

variable (hash) in
def PhaseShown (w : World) (key : Key) (s : BuildStatus) : Prop :=
  match s.phase with
  | .none => True
  | .pending => ∃ job, Own hash w key job
  | .running => ∃ job, Own hash w key job ∧ (job.status.complete ∨ 0 < job.status.active)
  | .succeeded => ∃ job, Own hash w key job ∧ job.status.complete
  | .failed => (∃ reason ∈ refusals, s.reason = some reason) ∨
      ∃ job, Own hash w key job ∧ job.status.failed.isSome

variable (hash) in
structure Witnessed (w : World) (key : Key) (s : BuildStatus) : Prop where
  jobRef : ∀ ref, s.jobRef = some ref →
    ref = ⟨jobsNamespace, jobName hash key.name⟩ ∧ ∃ job, Own hash w key job
  phase : PhaseShown hash w key s
  image : s.image ≠ "" → ∃ job, Own hash w key job ∧ job.status.complete
  startedAt : ∀ at', s.startedAt = some at' →
    ∃ job, Own hash w key job ∧ job.status.startTime = some at'
  completedAt : ∀ at', s.completedAt = some at' → ∃ job, Own hash w key job ∧
    ((∃ cond, job.status.failed = some cond ∧ cond.lastTransitionTime = at') ∨
      job.status.complete ∧ job.status.completionTime = some at')

def ownedTerms : Terms := { Terms.none with seen := fun key job => job.annotations = some key }

theorem InHand.own {job : Job} (h : InHand hash ownedTerms w key job) : Own hash w key job :=
  ⟨h.1, h.2.elim id id⟩

theorem exists_own_grows {P : Job → Prop} (hg : Grows w w')
    (h : ∃ job, Own hash w key job ∧ P job) : ∃ job, Own hash w' key job ∧ P job := by
  obtain ⟨job, hj, hP⟩ := h
  exact ⟨job, hj.grows hg, hP⟩

theorem exists_own_of_inHand {P Q : Job → Prop} (hPQ : ∀ job, P job → Q job)
    (h : ∃ job, InHand hash ownedTerms w key job ∧ P job) : ∃ job, Own hash w key job ∧ Q job := by
  obtain ⟨job, hj, hP⟩ := h
  exact ⟨job, hj.own, hPQ job hP⟩

variable {s : BuildStatus}

theorem PhaseShown.grows (h : PhaseShown hash w key s) (hg : Grows w w') :
    PhaseShown hash w' key s := by
  unfold PhaseShown at h ⊢
  cases hp : s.phase with
  | none => trivial
  | pending =>
    rw [hp] at h
    obtain ⟨job, hj⟩ := h
    exact ⟨job, hj.grows hg⟩
  | running | succeeded =>
    rw [hp] at h
    exact exists_own_grows hg h
  | failed =>
    rw [hp] at h
    exact h.imp_right (exists_own_grows hg)

theorem Witnessed.grows (h : Witnessed hash w key s) (hg : Grows w w') :
    Witnessed hash w' key s where
  jobRef ref href := by
    obtain ⟨heq, job, hj⟩ := h.jobRef ref href
    exact ⟨heq, job, hj.grows hg⟩
  phase := h.phase.grows hg
  image hne := exists_own_grows hg (h.image hne)
  startedAt at' hat := exists_own_grows hg (h.startedAt at' hat)
  completedAt at' hat := exists_own_grows hg (h.completedAt at' hat)

theorem witnessed_empty : Witnessed hash w key .empty := by
  constructor
  · rintro _ ⟨⟩
  · exact trivial
  · simp [BuildStatus.empty]
  · rintro _ ⟨⟩
  · rintro _ ⟨⟩

/-- The phase of a derived status was shown by a Job of the Build, or is a refusal. -/
theorem Derived.phaseShown {s' : BuildStatus} (h : Derived hash ownedTerms w key s s')
    (hop : s.isTerminal = false) (hs : PhaseShown hash w key s) : PhaseShown hash w key s' := by
  unfold PhaseShown
  rcases h.phase with heq | ⟨job, hj, hsh⟩ | ⟨heq, hrs⟩
  · unfold PhaseShown at hs
    rw [heq]
    cases hp : s.phase with
    | none => trivial
    | pending | running =>
      rw [hp] at hs
      exact hs
    | succeeded | failed => simp [BuildStatus.isTerminal, hp] at hop
  · have ho := hj.own
    generalize s'.phase = p at hsh
    cases hsh with
    | failed hf => exact .inr ⟨job, ho, hf⟩
    | succeeded hc => exact ⟨job, ho, hc⟩
    | running hr => exact ⟨job, ho, hr⟩
    | pending _ => exact ⟨job, ho⟩
  · rw [heq]
    exact .inl hrs

/-- What a derived status says has a Job of the Build behind it. -/
theorem Derived.witnessed {s' : BuildStatus} (h : Derived hash ownedTerms w key s s')
    (ho : s.isTerminal = false) (hs : Witnessed hash w key s) : Witnessed hash w key s' where
  jobRef ref href := by
    rcases h.jobRef with heq | ⟨heq, how⟩
    · exact hs.jobRef ref (heq ▸ href)
    · rw [heq, Option.some.injEq] at href
      exact ⟨href.symm, how⟩
  phase := h.phaseShown ho hs.phase
  image hne := by
    rcases h.image with ⟨heq, _⟩ | ⟨_, _, hj⟩
    · exact hs.image (heq ▸ hne)
    · exact exists_own_of_inHand (fun _ => id) hj
  startedAt at' hat := by
    rcases h.startedAt with heq | hj
    · exact hs.startedAt at' (heq ▸ hat)
    refine exists_own_of_inHand ?_ hj
    intro job hst
    rw [← hst]
    exact hat
  completedAt at' hat := by
    rcases h.completedAt with heq | hj
    · exact hs.completedAt at' (heq ▸ hat)
    refine exists_own_of_inHand ?_ hj
    rintro job (⟨cond, hcn, heq⟩ | ⟨hc, heq⟩)
    · rw [heq, Option.some.injEq] at hat
      exact .inl ⟨cond, hcn, hat⟩
    · exact .inr ⟨hc, heq ▸ hat⟩

end Witnessed

section Discipline

variable (hash) in
structure OwnedInv (w : World) : Prop where
  logInv : LogInv w
  witnessed : ∀ {key b}, some b ∈ w.buildLog key → Witnessed hash w key b.status
  deleted : ∀ e ∈ w.deleted, e.2.annotations = some e.1

variable (hash) in
def ownedDiscipline : Discipline World ℕ where
  inv := OwnedInv hash
  evolves _ _ := True
  rely _ := Grows
  evolves_refl _ := trivial
  evolves_trans := fun _ _ => trivial
  rely_refl _ := Grows.refl
  rely_trans _ := fun h₁ h₂ => h₁.trans h₂

variable (hash) in
/-- A confirmed Job names the Build, and so does the Job that a clean-up meets. -/
def OwnedAnswer (w : World) : (c : Call) → c.Reply → Prop
  | .readJob .confirm key, .found job => job.annotations = some key
  | .deleteJob key, _ => (w.jobOf hash key).all fun job => job.annotations = some key
  | _, _ => True

instance (w : World) : (c : Call) → (x : c.Reply) → Decidable (OwnedAnswer hash w c x)
  | .readJob .confirm key, .found job => inferInstanceAs (Decidable (job.annotations = some key))
  | .deleteJob key, _ => inferInstanceAs (Decidable
      (((w.jobOf hash key).all fun job => job.annotations = some key) = true))
  | .readJob .confirm _, .notFound | .readJob .confirm _, .error | .readJob .adopt _, _
  | .readJob .conflict _, _ | .getBuild _, _ | .updateBuild _, _ | .updateStatus _, _
  | .getJob _ _, _ | .createJob _ _, _ | .listPods _, _ | .resolveDigest _, _ =>
    inferInstanceAs (Decidable True)

def ownedWorkers (hash : String → String) : System apiServer World ℕ Errors :=
  (workers hash fun _ _ => True).restrict fun _ c w x => OwnedAnswer hash w c x

theorem OwnedInv.push (h : OwnedInv hash w) (hl : LogInv w') (hg : Grows w w')
    (hbl : ∀ {key b}, some b ∈ w'.buildLog key →
      some b ∈ w.buildLog key ∨ Witnessed hash w key b.status)
    (hd : ∀ e ∈ w'.deleted, e ∈ w.deleted ∨ e.2.annotations = some e.1) : OwnedInv hash w' where
  logInv := hl
  witnessed {key b} hb := by
    rcases hbl hb with hold | hn
    · exact (h.witnessed hold).grows hg
    · exact hn.grows hg
  deleted e he := (hd e he).elim (h.deleted e) id

variable {b : BuildObject} {key' : Key}

theorem OwnedInv.kept (h : OwnedInv hash w) {cur new : BuildObject}
    (hb : some b ∈ (w.pushBuild key (some new)).buildLog key') (hc : w.build key = some cur)
    (hs : new.status = cur.status) : some b ∈ w.buildLog key' ∨ Witnessed hash w key' b.status := by
  rcases mem_pushBuild hb with ⟨rfl, hn⟩ | hold
  · cases hn
    rw [hs]
    exact .inr (h.witnessed (mem_buildLog_of_build hc))
  · exact .inl hold

theorem OwnedInv.derived (h : OwnedInv hash w) {cur new b' : BuildObject}
    (hb' : some b' ∈ (w.pushBuild b.key (some new)).buildLog key')
    (hj : Justified hash ownedTerms (.updateStatus b) w) (hc : w.build b.key = some cur)
    (hv : cur.resourceVersion = b.resourceVersion) (hs : new.status = b.status) :
    some b' ∈ w.buildLog key' ∨ Witnessed hash w key' b'.status := by
  obtain ⟨b0, hb, hb0, hd, _⟩ := hj
  obtain rfl := h.logInv.base_eq hc hb.mem (hv.trans hb0.symm)
  rcases mem_pushBuild hb' with ⟨rfl, hn⟩ | hold
  · cases hn
    rw [hs]
    exact .inr (hd.witnessed hb.unfinished (h.witnessed hb.mem))
  · exact .inl hold

theorem mem_pushBuild_none (hb : some b ∈ (w.pushBuild key none).buildLog key') :
    some b ∈ w.buildLog key' := by
  rcases mem_pushBuild hb with ⟨_, hn⟩ | hold
  · cases hn
  · exact hold

/-- A reconcile stores only what the Build's own Job has shown. -/
theorem ownedInv_write {c : Call} {x : c.Reply} (h : OwnedInv hash w)
    (hj : Justified hash ownedTerms c w) (ho : OwnedAnswer hash w c x) (hw : Write hash w c w') :
    OwnedInv hash w' := by
  obtain ⟨hl, hg⟩ := write_logInv h.logInv hw
  cases hw with
  | same => exact h
  | finalizer hc _ _ => exact h.push hl hg (fun hb => h.kept hb hc rfl) fun _ => .inl
  | gone _ _ _ _ => exact h.push hl hg (fun hb => .inl (mem_pushBuild_none hb)) fun _ => .inl
  | status hc hv _ =>
    exact h.push hl hg (fun hb => h.derived hb hj hc hv rfl) fun _ => .inl
  | disable hc hv _ _ =>
    exact h.push hl hg (fun hb => h.derived hb hj hc hv rfl) fun _ => .inl
  | created _ => exact h.push hl hg .inl fun _ => .inl
  | @deleted key job hjb =>
    refine h.push hl hg .inl ?_
    intro e he
    rcases List.mem_cons.mp he with rfl | hold
    · have ha : (w.jobOf hash key).all (fun job => job.annotations = some key) = true := ho
      rw [hjb] at ha
      exact .inr (by simpa using ha)
    · exact .inl hold

theorem ownedInv_event {e : Event} (h : OwnedInv hash w) (he : Occurs w e w') : OwnedInv hash w' := by
  obtain ⟨hl, hg⟩ := event_logInv h.logInv he
  cases he with
  | buildCreated _ =>
    refine h.push hl hg (fun hb => ?_) fun _ => .inl
    rcases mem_pushBuild hb with ⟨_, hn⟩ | hold
    · cases hn
      exact .inr witnessed_empty
    · exact .inl hold
  | buildMarked hb _ => exact h.push hl hg (fun hn => h.kept hn hb rfl) fun _ => .inl
  | buildGone _ _ => exact h.push hl hg (fun hb => .inl (mem_pushBuild_none hb)) fun _ => .inl
  | jobCreated | jobDeleted | jobStatus => exact h.push hl hg .inl fun _ => .inl

theorem ownedWorkers_walk :
    Walk hash ownedTerms (ownedWorkers hash).exec (ownedDiscipline hash) t where
  grows := id
  logInv := OwnedInv.logInv
  machine h := h.2
  confirm h := h.1
  digest _ := trivial
  allowed hi hjust hx := by
    have hw := exec_write hx.2
    exact ⟨ownedInv_write hi hjust hx.1 hw, trivial,
      fun _ _ => (write_logInv hi.logInv hw).2⟩

/-- Any number of reconciles at once store only what the Builds' own Jobs have shown. -/
theorem ownedWorkers_respect :
    (ownedWorkers hash).Respects (ownedDiscipline hash) fun _ _ _ => True where
  starts := by
    rintro t p w ⟨r, key, rfl⟩ _
    exact safe_reconcile ownedWorkers_walk ⟨⟨fun _ _ => trivial, fun _ _ => trivial⟩, fun _ _ => trivial⟩
  lasts := fun _ _ _ _ _ _ => trivial
  env := by
    rintro w w' hw ⟨e, _, he⟩
    have ho := event_occurs he
    exact ⟨ownedInv_event hw ho, trivial, fun _ => (event_logInv hw.logInv ho).2⟩
  restart := by
    rintro w _ hw rfl
    exact ⟨hw, trivial⟩

theorem ownedInv_empty : OwnedInv hash World.empty :=
  ⟨logInv_empty, fun h => (List.not_mem_nil h).elim, fun _ h => (List.not_mem_nil h).elim⟩

end Discipline

def ownedMachine : Machine apiServer World :=
  (machine sampleHash).guard fun c w x _ => decide (OwnedAnswer sampleHash w c x)

theorem ownedMachine_exec (c : Call) (w : World) (x : c.Reply) (w' : World)
    (h : ownedMachine.exec c w x w') : (ownedWorkers sampleHash).exec 0 c w x w' := by
  rw [ownedMachine, Machine.exec_guard, decide_eq_true_iff] at h
  exact ⟨h.2, h.1⟩

def ownStarted : World :=
  ownedMachine.after freshPick (reconcile sampleHash sampleReconciler sampleKey) createdWorld

/-- The Job is deleted, and a finished Job of somebody else takes its name. -/
def replacedJob : World :=
  (plainStarted.afterEvent (.deleteJob "web-1")).afterEvent (.createJob "web-1" none completeStatus)

def mirrored : World :=
  (machine sampleHash).after (laggingPick 1) (reconcile sampleHash sampleReconciler sampleKey)
    replacedJob

def cleanedUp : World :=
  (machine sampleHash).after (laggingPick 2) (reconcile sampleHash sampleReconciler sampleKey)
    (replacedJob.afterEvent (.deleteBuild sampleKey))

end Orkano.Operator.BuildController
