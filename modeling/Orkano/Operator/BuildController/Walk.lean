import Orkano.Operator.BuildController.Server

/-!
What a reconcile knows when it writes, in any interleaving. `Justified` collects these facts for
each write, and the walk through the program is made once: a discipline under which justified
calls are allowed is one under which reconciles are safe.
-/
namespace Orkano.Operator.BuildController

open Interleave Program List

variable {hash : String → String} {w w' : World} {key : Key}

section Logs

structure LogInv (w : World) : Prop where
  key_eq : ∀ {key b}, some b ∈ w.buildLog key → b.key = key
  version_lt : ∀ {key b}, some b ∈ w.buildLog key → b.resourceVersion < w.clock
  uid_lt : ∀ {key b}, some b ∈ w.buildLog key → b.uid < w.clock
  version_inj : ∀ {key b b'}, some b ∈ w.buildLog key → some b' ∈ w.buildLog key →
    b.resourceVersion = b'.resourceVersion → b = b'

structure Grows (w w' : World) : Prop where
  clock : w.clock ≤ w'.clock
  builds : ∀ {key o}, o ∈ w.buildLog key → o ∈ w'.buildLog key
  jobs : ∀ {name o}, o ∈ w.jobLog name → o ∈ w'.jobLog name

theorem Grows.refl (w : World) : Grows w w := ⟨le_rfl, id, id⟩

theorem Grows.trans {w1 w2 w3 : World} (h1 : Grows w1 w2) (h2 : Grows w2 w3) : Grows w1 w3 :=
  ⟨h1.clock.trans h2.clock, fun h => h2.builds (h1.builds h), fun h => h2.jobs (h1.jobs h)⟩

theorem logInv_empty : LogInv World.empty :=
  ⟨fun h => (not_mem_nil h).elim, fun h => (not_mem_nil h).elim,
    fun h => (not_mem_nil h).elim, fun h => (not_mem_nil h).elim⟩

theorem LogInv.of_logs (h : LogInv w) (hl : w'.buildLog = w.buildLog) (hc : w.clock ≤ w'.clock) :
    LogInv w' where
  key_eq hb := h.key_eq (hl ▸ hb)
  version_lt hb := (h.version_lt (hl ▸ hb)).trans_le hc
  uid_lt hb := (h.uid_lt (hl ▸ hb)).trans_le hc
  version_inj hb hb' := h.version_inj (hl ▸ hb) (hl ▸ hb')

theorem grows_pushBuild (o : Option BuildObject) : Grows w (w.pushBuild key o) :=
  ⟨Nat.le_succ _, fun h => mem_update_cons.mpr (.inr h), id⟩

theorem grows_pushJob {name : String} (o : Option Job) : Grows w (w.pushJob name o) :=
  ⟨Nat.le_succ _, id, fun h => mem_update_cons.mpr (.inr h)⟩

variable {o : Option BuildObject} {b : BuildObject}

theorem mem_pushBuild {key' : Key} (h : some b ∈ (w.pushBuild key o).buildLog key') :
    key' = key ∧ o = some b ∨ some b ∈ w.buildLog key' :=
  (mem_update_cons.mp h).imp_left (And.imp_right Eq.symm)

/-- A new state has the key it is stored under, a fresh version, and a uid that is fresh
or was given. -/
structure NewState (w : World) (key : Key) (b : BuildObject) : Prop where
  key_eq : b.key = key
  version_eq : b.resourceVersion = w.clock
  uid_le : b.uid ≤ w.clock

/-- A new state of a Build gets a version of its own. -/
theorem logInv_pushBuild (h : LogInv w) (ho : ∀ b, o = some b → NewState w key b) :
    LogInv (w.pushBuild key o) where
  key_eq {key' b} hb := by
    rcases mem_pushBuild hb with ⟨rfl, hn⟩ | hold
    · exact (ho b hn).key_eq
    · exact h.key_eq hold
  version_lt {key' b} hb := by
    rcases mem_pushBuild hb with ⟨_, hn⟩ | hold
    · rw [(ho b hn).version_eq]
      exact Nat.lt_succ_self _
    · exact (h.version_lt hold).trans (Nat.lt_succ_self _)
  uid_lt {key' b} hb := by
    rcases mem_pushBuild hb with ⟨_, hn⟩ | hold
    · exact Nat.lt_succ_of_le (ho b hn).uid_le
    · exact (h.uid_lt hold).trans (Nat.lt_succ_self _)
  version_inj {key' b b'} hb hb' heq := by
    rcases mem_pushBuild hb with ⟨rfl, hn⟩ | hold
    · rcases mem_pushBuild hb' with ⟨_, hn'⟩ | ho'
      · exact Option.some.inj (hn.symm.trans hn')
      have hlt := h.version_lt ho'
      rw [← heq, (ho b hn).version_eq] at hlt
      exact absurd hlt (lt_irrefl _)
    rcases mem_pushBuild hb' with ⟨_, hn'⟩ | ho'
    · have hlt := h.version_lt hold
      rw [heq, (ho b' hn').version_eq] at hlt
      exact absurd hlt (lt_irrefl _)
    · exact h.version_inj hold ho' heq

theorem LogInv.base_eq (h : LogInv w) {cur b₀ : BuildObject} (hc : w.build key = some cur)
    (hb0 : some b₀ ∈ w.buildLog key) (hv : cur.resourceVersion = b₀.resourceVersion) :
    cur = b₀ := h.version_inj (mem_buildLog_of_build hc) hb0 hv

theorem newState_of_build (h : LogInv w) {cur new : BuildObject} (hc : w.build key = some cur)
    (hk : new.key = cur.key) (hv : new.resourceVersion = w.clock) (hu : new.uid = cur.uid) :
    NewState w key new := by
  have hm := mem_buildLog_of_build hc
  exact ⟨hk.trans (h.key_eq hm), hv, (hu.trans_lt (h.uid_lt hm)).le⟩

inductive Written (w : World) : Call → Key → BuildObject → Prop where
  | finalizer {b cur : BuildObject} : w.build b.key = some cur →
      Written w (.updateBuild b) b.key
        { cur with finalizer := b.finalizer, resourceVersion := w.clock }
  | status {b cur : BuildObject} : w.build b.key = some cur →
      cur.resourceVersion = b.resourceVersion →
      Written w (.updateStatus b) b.key { cur with status := b.status, resourceVersion := w.clock }

inductive Arises (w : World) : Event → Key → BuildObject → Prop where
  | created {key : Key} {spec : BuildSpec} {timeoutSeconds : ℤ} :
      Arises w (.createBuild key spec timeoutSeconds) key
        ⟨key, w.clock, w.clock, 1, false, false, spec, timeoutSeconds, .empty⟩
  | marked {key : Key} {b : BuildObject} : w.build key = some b →
      Arises w (.deleteBuild key) key { b with
        deleting := true
        generation := b.generation + 1
        resourceVersion := w.clock }

inductive Adds (w w' : World) (new : Key → BuildObject → Prop) : Prop where
  | none : w'.buildLog = w.buildLog → w'.jobLog = w.jobLog → w'.clock = w.clock → Adds w w' new
  | build {key : Key} {o : Option BuildObject} : w'.buildLog = (w.pushBuild key o).buildLog →
      w'.jobLog = w.jobLog → w'.clock = w.clock + 1 → (∀ b, o = some b → new key b) → Adds w w' new
  | job {name : String} {o : Option Job} : w'.buildLog = w.buildLog →
      w'.jobLog = (w.pushJob name o).jobLog → w'.clock = w.clock + 1 → Adds w w' new

variable {c : Call}

theorem write_adds (h : Write hash w c w') : Adds w w' (Written w c) := by
  cases h with
  | same => exact .none rfl rfl rfl
  | finalizer hc _ _ =>
    refine .build rfl rfl rfl ?_
    rintro _ ⟨⟩
    exact .finalizer hc
  | gone _ _ _ _ =>
    refine .build rfl rfl rfl ?_
    rintro _ ⟨⟩
  | status hc hv _ | disable hc hv _ _ =>
    refine .build rfl rfl rfl ?_
    rintro _ ⟨⟩
    exact .status hc hv
  | created _ | deleted _ => exact .job rfl rfl rfl

variable {e : Event}

theorem event_adds (h : Occurs w e w') : Adds w w' (Arises w e) := by
  cases h with
  | buildCreated _ =>
    refine .build rfl rfl rfl ?_
    rintro _ ⟨⟩
    exact .created
  | buildMarked hb _ =>
    refine .build rfl rfl rfl ?_
    rintro _ ⟨⟩
    exact .marked hb
  | buildGone _ _ =>
    refine .build rfl rfl rfl ?_
    rintro _ ⟨⟩
  | jobCreated _ | jobDeleted _ | jobStatus _ => exact .job rfl rfl rfl

section Adds

variable {new : Key → BuildObject → Prop} {b : BuildObject}

theorem Adds.grows (h : Adds w w' new) : Grows w w' := by
  cases h with
  | none hb hj hc =>
    exact ⟨hc.ge, fun ho => hb ▸ ho, fun ho => hj ▸ ho⟩
  | build hb hj hc _ =>
    exact ⟨hc ▸ Nat.le_succ _, fun ho => hb ▸ (grows_pushBuild _).builds ho,
      fun ho => hj ▸ ho⟩
  | job hb hj hc =>
    exact ⟨hc ▸ Nat.le_succ _, fun ho => hb ▸ ho,
      fun ho => hj ▸ (grows_pushJob _).jobs ho⟩

/-- A state that is in a log after a step was there before, or is the new one. -/
theorem Adds.mem (h : Adds w w' new) (hb : some b ∈ w'.buildLog key) :
    some b ∈ w.buildLog key ∨ new key b := by
  cases h with
  | none hbl _ _ | job hbl _ _ => exact .inl (hbl ▸ hb)
  | build hbl _ _ hn =>
    rw [hbl] at hb
    rcases mem_pushBuild hb with ⟨rfl, ho⟩ | hold
    · exact .inr (hn b ho)
    · exact .inl hold

/-- A Build that is stored after a step was stored before, or is new. -/
theorem Adds.stored (h : Adds w w' new) (hb : w'.build key = some b) :
    w.build key = some b ∨ new key b := by
  cases h with
  | none hbl _ _ | job hbl _ _ =>
    rw [World.build, hbl] at hb
    exact .inl hb
  | @build key' o hbl _ _ hn =>
    have hp : (w.pushBuild key' o).build key = some b := by
      rw [← hb, World.build, World.build, hbl]
    by_cases hk : key = key'
    · subst hk
      exact .inr (hn b (pushBuild_build o ▸ hp))
    · rw [pushBuild_build_of_ne hk] at hp
      exact .inl hp

theorem Adds.logInv (h : Adds w w' new) (hw : LogInv w)
    (hn : ∀ {key b}, new key b → NewState w key b) : LogInv w' := by
  cases h with
  | none hbl _ hc => exact hw.of_logs hbl hc.ge
  | build hbl _ hc ho =>
    exact (logInv_pushBuild hw fun b hb => hn (ho b hb)).of_logs hbl hc.ge
  | job hbl _ hc => exact hw.of_logs hbl (hc ▸ Nat.le_succ _)

end Adds

theorem Written.newState (h : LogInv w) (hb : Written w c key b) : NewState w key b := by
  cases hb with
  | finalizer hc => exact newState_of_build h hc rfl rfl rfl
  | status hc _ => exact newState_of_build h hc rfl rfl rfl

theorem Arises.newState (h : LogInv w) (hb : Arises w e key b) : NewState w key b := by
  cases hb with
  | created => exact ⟨rfl, rfl, le_rfl⟩
  | marked hb => exact newState_of_build h hb rfl rfl rfl

theorem Written.prior (hb : Written w c key b) :
    ∃ cur, w.build key = some cur ∧ cur.uid = b.uid := by
  cases hb with
  | finalizer hc => exact ⟨_, hc, rfl⟩
  | status hc _ => exact ⟨_, hc, rfl⟩

theorem write_logInv (h : LogInv w) (hw : Write hash w c w') : LogInv w' ∧ Grows w w' :=
  ⟨(write_adds hw).logInv h fun hb => hb.newState h, (write_adds hw).grows⟩

theorem event_logInv (h : LogInv w) (he : Occurs w e w') : LogInv w' ∧ Grows w w' :=
  ⟨(event_adds he).logInv h fun hb => hb.newState h, (event_adds he).grows⟩

end Logs

section OwnJobs

variable (hash) in
/-- A Job that names the Build is stored under its name. -/
def World.hasOwnJob (w : World) (key : Key) : Bool :=
  (w.jobOf hash key).any fun job => job.annotations = some key

theorem hasOwnJob_iff :
    w.hasOwnJob hash key = true ↔ ∃ job, w.jobOf hash key = some job ∧ job.annotations = some key := by
  simp [World.hasOwnJob, Option.any_eq_true]

theorem jobOf_of_jobLog (h : w'.jobLog = w.jobLog) : w'.jobOf hash key = w.jobOf hash key := by
  simp only [World.jobOf, World.job, h]

theorem hasOwnJob_of_jobLog (h : w'.jobLog = w.jobLog) :
    w'.hasOwnJob hash key = w.hasOwnJob hash key := by
  simp only [World.hasOwnJob, jobOf_of_jobLog h]

theorem hasOwnJob_pushJob {name : String} {o : Option Job}
    (h : (w.pushJob name o).hasOwnJob hash key = true) :
    w.hasOwnJob hash key = true ∨ ∃ job, o = some job ∧ job.annotations = some key := by
  obtain ⟨job, hj, ha⟩ := hasOwnJob_iff.mp h
  unfold World.jobOf at hj
  by_cases hn : jobName hash key.name = name
  · rw [hn, pushJob_job] at hj
    exact .inr ⟨job, hj, ha⟩
  · rw [pushJob_job_of_ne hn] at hj
    exact .inl (hasOwnJob_iff.mpr ⟨job, hj, ha⟩)

/-- Only a create gives a Build a Job. -/
theorem hasOwnJob_write {c : Call} (hw : Write hash w c w')
    (h : w'.hasOwnJob hash key = true) : w.hasOwnJob hash key = true ∨
      ∃ features b, c = .createJob features b ∧ b.key = key ∧ w.jobOf hash key = none := by
  cases hw with
  | same | finalizer | gone | status | disable => exact .inl h
  | @created features b hn =>
    have hp := (hasOwnJob_of_jobLog (w := w.pushJob (jobName hash b.key.name)
      (some ⟨w.clock, some b.key, .empty⟩)) rfl).symm.trans h
    rcases hasOwnJob_pushJob hp with hold | ⟨job, hj, ha⟩
    · exact .inl hold
    cases hj
    cases ha
    exact .inr ⟨features, b, rfl, rfl, hn⟩
  | @deleted key' _ _ =>
    have hp := (hasOwnJob_of_jobLog (w := w.pushJob (jobName hash key'.name) none)
      rfl).symm.trans h
    rcases hasOwnJob_pushJob hp with hold | ⟨job, hj, _⟩
    · exact .inl hold
    · cases hj

def Event.Unannotated : Event → Prop
  | .createJob _ annotations _ => annotations = none
  | _ => True

/-- An event that annotates no Job gives no Build a Job. -/
theorem hasOwnJob_event {e : Event} (hok : e.Unannotated) (he : Occurs w e w')
    (h : w'.hasOwnJob hash key = true) : w.hasOwnJob hash key = true := by
  cases he with
  | buildCreated | buildMarked | buildGone => exact h
  | jobCreated _ =>
    rcases hasOwnJob_pushJob h with hold | ⟨job, hj, ha⟩
    · exact hold
    cases hj
    rw [Event.Unannotated] at hok
    rw [hok] at ha
    cases ha
  | jobDeleted _ =>
    rcases hasOwnJob_pushJob h with hold | ⟨job, hj, _⟩
    · exact hold
    · cases hj
  | @jobStatus name job status hj =>
    obtain ⟨job', hj', ha⟩ := hasOwnJob_iff.mp h
    unfold World.jobOf at hj'
    by_cases hn : jobName hash key.name = name
    · rw [hn, pushJob_job] at hj'
      cases hj'
      rw [← hn] at hj
      exact hasOwnJob_iff.mpr ⟨job, hj, ha⟩
    · rw [pushJob_job_of_ne hn] at hj'
      exact hasOwnJob_iff.mpr ⟨job', hj', ha⟩

variable {cur : BuildObject}

/-- A Build that is stored after a step was stored before, or has a new version. -/
theorem build_write {c : Call} (hl : LogInv w) (hw : Write hash w c w')
    (h : w'.build key = some cur) : w.build key = some cur ∨ cur.resourceVersion = w.clock :=
  ((write_adds hw).stored h).imp_right fun hn => (hn.newState hl).version_eq

theorem build_event {e : Event} (hl : LogInv w) (he : Occurs w e w') (h : w'.build key = some cur) :
    w.build key = some cur ∨ cur.resourceVersion = w.clock :=
  ((event_adds he).stored h).imp_right fun hn => (hn.newState hl).version_eq

end OwnJobs

section Justified

/-- What a result wants to know beyond the logs: of Jobs that a live confirm shows, of
resolved digests, of the gate at a create, of a Build that becomes disabled, and of one
whose finalizer is dropped. -/
structure Terms where
  seen : Key → Job → Prop
  pinned : String → Prop
  gate : List Feature → BuildObject → Prop
  disable : Key → World → Prop
  release : BuildObject → World → Prop

def Terms.none : Terms :=
  ⟨fun _ _ => True, fun _ => True, fun _ _ => True, fun _ _ => True, fun _ _ => True⟩

structure Terms.Ungated (T : Terms) : Prop where
  gate : ∀ features b, T.gate features b
  disable : ∀ key w, T.disable key w

structure Terms.Open (T : Terms) : Prop extends T.Ungated where
  release : ∀ b w, T.release b w

theorem Terms.none_open : Terms.none.Open :=
  ⟨⟨fun _ _ => trivial, fun _ _ => trivial⟩, fun _ _ => trivial⟩

variable (hash) in
/-- A Job that was stored at some time and names the Build. -/
def Own (w : World) (key : Key) (job : Job) : Prop :=
  some job ∈ w.jobLogOf hash key ∧ job.annotations = some key

variable (hash) in
def InHand (T : Terms) (w : World) (key : Key) (job : Job) : Prop :=
  some job ∈ w.jobLogOf hash key ∧ (job.annotations = some key ∨ T.seen key job)

inductive Shows (job : Job) (phase : BuildPhase) : BuildPhase → Prop where
  | failed : job.status.failed.isSome → Shows job phase .failed
  | succeeded : job.status.complete → Shows job phase .succeeded
  | running : job.status.complete ∨ 0 < job.status.active → Shows job phase .running
  | pending : phase = .none ∨ phase = .pending → Shows job phase .pending

/-- The reasons of a failure that no Job's state is behind. -/
def refusals : List Reason := [.featureDisabled, .invalidBuild, .jobConflict, .jobMissing]

variable (hash) in
structure Derived (T : Terms) (w : World) (key : Key) (s s' : BuildStatus) : Prop where
  jobRef : s'.jobRef = s.jobRef ∨
    s'.jobRef = some ⟨jobsNamespace, jobName hash key.name⟩ ∧ ∃ job, Own hash w key job
  phase : s'.phase = s.phase ∨ (∃ job, InHand hash T w key job ∧ Shows job s.phase s'.phase) ∨
    s'.phase = .failed ∧ ∃ reason ∈ refusals, s'.reason = some reason
  image : s'.image = s.image ∧ s'.phase ≠ .succeeded ∨
    s'.phase = .succeeded ∧ T.pinned s'.image ∧
      ∃ job, InHand hash T w key job ∧ job.status.complete
  startedAt : s'.startedAt = s.startedAt ∨
    ∃ job, InHand hash T w key job ∧ s'.startedAt = job.status.startTime
  completedAt : s'.completedAt = s.completedAt ∨ ∃ job, InHand hash T w key job ∧
    ((∃ cond, job.status.failed = some cond ∧ s'.completedAt = some cond.lastTransitionTime) ∨
      job.status.complete ∧ s'.completedAt = job.status.completionTime)

/-- A write does not come to report a disabled feature. -/
def Steady (s s' : BuildStatus) : Prop :=
  s'.reason = some .featureDisabled → s.reason = some .featureDisabled

structure Base (w : World) (key : Key) (b₀ : BuildObject) : Prop where
  mem : some b₀ ∈ w.buildLog key
  live : b₀.deleting = false
  unfinished : b₀.status.isTerminal = false

variable (hash) in
def Justified (T : Terms) : Call → World → Prop
  | .updateStatus b, w => ∃ b₀, Base w b.key b₀ ∧ b₀.resourceVersion = b.resourceVersion ∧
      Derived hash T w b.key b₀.status b.status ∧ (Steady b₀.status b.status ∨ T.disable b.key w)
  | .updateBuild b, w => ∃ b₀, some b₀ ∈ w.buildLog b.key ∧
      b₀.resourceVersion = b.resourceVersion ∧ b.finalizer = !b₀.deleting ∧
      (b.finalizer = false → T.release b w)
  | .createJob features b, w => ∃ b₀, Base w b.key b₀ ∧ b₀.uid = b.uid ∧ b₀.finalizer = true ∧
      b.status.jobRef = none ∧ T.gate features b
  | .deleteJob key, w => ∃ b₀ job, some b₀ ∈ w.buildLog key ∧ b₀.deleting = true ∧ Own hash w key job
  | _, _ => True

variable {T : Terms} {job : Job} {b₀ b : BuildObject} {s s' : BuildStatus}

theorem Own.grows (h : Own hash w key job) (hg : Grows w w') : Own hash w' key job :=
  ⟨hg.jobs h.1, h.2⟩

theorem InHand.grows (h : InHand hash T w key job) (hg : Grows w w') : InHand hash T w' key job :=
  ⟨hg.jobs h.1, h.2⟩

theorem Own.inHand (h : Own hash w key job) : InHand hash T w key job := ⟨h.1, .inl h.2⟩

theorem Base.grows (h : Base w key b₀) (hg : Grows w w') : Base w' key b₀ :=
  ⟨hg.builds h.mem, h.live, h.unfinished⟩

theorem Derived.grows (h : Derived hash T w key s s') (hg : Grows w w') :
    Derived hash T w' key s s' := by
  have hin : ∀ {P : Job → Prop}, (∃ job, InHand hash T w key job ∧ P job) →
      ∃ job, InHand hash T w' key job ∧ P job := by
    rintro P ⟨job, hj, hP⟩
    exact ⟨job, hj.grows hg, hP⟩
  refine ⟨?_, ?_, ?_, h.startedAt.imp_right hin, h.completedAt.imp_right hin⟩
  · exact h.jobRef.imp_right (And.imp_right fun ⟨job, hj⟩ => ⟨job, hj.grows hg⟩)
  · exact h.phase.imp_right (Or.imp_left hin)
  · exact h.image.imp_right (And.imp_right (And.imp_right hin))

end Justified

section Drafts

variable {T : Terms} {job : Job} {b₀ b : BuildObject}

variable (hash) in
/-- The object in memory before a Job is observed: the state read, with at most the
reference to the Job set. -/
structure Prepared (w : World) (key : Key) (b₀ b : BuildObject) : Prop where
  base : Base w key b₀
  key_eq : b.key = key
  uid_eq : b.uid = b₀.uid
  version_eq : b.resourceVersion = b₀.resourceVersion
  finalizer_eq : b.finalizer = b₀.finalizer
  status_eq : b.status = { b₀.status with jobRef := b.status.jobRef }
  jobRef : b.status.jobRef = b₀.status.jobRef ∨
    b.status.jobRef = some ⟨jobsNamespace, jobName hash key.name⟩ ∧ ∃ job, Own hash w key job

variable (hash) in
structure Draft (T : Terms) (w : World) (key : Key) (b₀ b : BuildObject) : Prop where
  base : Base w key b₀
  key_eq : b.key = key
  version_eq : b.resourceVersion = b₀.resourceVersion
  derived : Derived hash T w key b₀.status b.status
  steady : Steady b₀.status b.status

theorem Prepared.grows (h : Prepared hash w key b₀ b) (hg : Grows w w') :
    Prepared hash w' key b₀ b :=
  { h with
    base := h.base.grows hg
    jobRef := h.jobRef.imp_right (And.imp_right fun ⟨job, hj⟩ => ⟨job, hj.grows hg⟩) }

theorem Draft.grows (h : Draft hash T w key b₀ b) (hg : Grows w w') : Draft hash T w' key b₀ b :=
  ⟨h.base.grows hg, h.key_eq, h.version_eq, h.derived.grows hg, h.steady⟩

theorem prepared_base (h : Base w key b₀) (hk : b₀.key = key) : Prepared hash w key b₀ b₀ :=
  ⟨h, hk, rfl, rfl, rfl, rfl, .inl rfl⟩

theorem Prepared.setJobRef (h : Prepared hash w key b₀ b) (ho : Own hash w key job) :
    Prepared hash w key b₀ (setJobRef hash b) :=
  { h with
    status_eq := by
      unfold BuildController.setJobRef
      rw [h.status_eq]
    jobRef := .inr ⟨by rw [← h.key_eq]; rfl, job, ho⟩ }

section Fields

variable (h : Prepared hash w key b₀ b)
include h

theorem Prepared.phase : b.status.phase = b₀.status.phase := by rw [h.status_eq]

theorem Prepared.image : b.status.image = b₀.status.image := by rw [h.status_eq]

theorem Prepared.startedAt : b.status.startedAt = b₀.status.startedAt := by rw [h.status_eq]

theorem Prepared.completedAt : b.status.completedAt = b₀.status.completedAt := by rw [h.status_eq]

theorem Prepared.reason : b.status.reason = b₀.status.reason := by
  unfold BuildStatus.reason
  rw [h.status_eq]

end Fields

/-- What a reconcile may do to a prepared status, with a Job in hand. -/
theorem Prepared.draft {s : BuildStatus} (h : Prepared hash w key b₀ b)
    (hjr : s.jobRef = b.status.jobRef)
    (hp : s.phase = b.status.phase ∨
      (∃ job, InHand hash T w key job ∧ Shows job b.status.phase s.phase) ∨
      s.phase = .failed ∧ ∃ reason ∈ refusals, s.reason = some reason)
    (hi : s.image = b.status.image ∧ s.phase ≠ .succeeded ∨
      s.phase = .succeeded ∧ T.pinned s.image ∧
        ∃ job, InHand hash T w key job ∧ job.status.complete)
    (hs : s.startedAt = b.status.startedAt ∨
      ∃ job, InHand hash T w key job ∧ s.startedAt = job.status.startTime)
    (hc : s.completedAt = b.status.completedAt ∨
      ∃ job, InHand hash T w key job ∧
        ((∃ cond, job.status.failed = some cond ∧ s.completedAt = some cond.lastTransitionTime) ∨
        job.status.complete ∧ s.completedAt = job.status.completionTime))
    (hr : s.reason = b.status.reason ∨ s.reason ≠ some .featureDisabled) :
    Draft hash T w key b₀ { b with status := s } where
  base := h.base
  key_eq := h.key_eq
  version_eq := h.version_eq
  derived := by
    rw [h.phase] at hp
    rw [h.image] at hi
    rw [h.startedAt] at hs
    rw [h.completedAt] at hc
    exact ⟨hjr ▸ h.jobRef, hp, hi, hs, hc⟩
  steady := by
    intro hd
    rw [h.reason] at hr
    rcases hr with heq | hne
    · rw [← heq]
      exact hd
    · exact absurd hd hne

theorem Prepared.phase_ne (h : Prepared hash w key b₀ b) : b.status.phase ≠ .succeeded := by
  intro hp
  have ho := h.base.unfinished
  simp [BuildStatus.isTerminal, ← h.phase, hp] at ho

theorem Prepared.toDraft (h : Prepared hash w key b₀ b) : Draft hash T w key b₀ b :=
  h.draft rfl (.inl rfl) (.inl ⟨rfl, h.phase_ne⟩) (.inl rfl) (.inl rfl) (.inl rfl)

theorem Prepared.failBuild (h : Prepared hash w key b₀ b) {reason : Reason} (message : String)
    (hr : reason ∈ refusals) (hne : reason ≠ .featureDisabled) :
    Draft hash T w key b₀ (failBuild b reason message) := by
  have hp : BuildPhase.failed ≠ .succeeded := by decide
  exact h.draft rfl (.inr (.inr ⟨rfl, reason, hr, rfl⟩)) (.inl ⟨rfl, hp⟩) (.inl rfl)
    (.inl rfl) (.inr fun heq => hne (Option.some.inj heq))

end Drafts

section Walk

variable {τ : Type} {exec : τ → (c : apiServer.Call) → World → apiServer.Reply c → World → Prop}
variable {D : Discipline World τ} {t : τ} {T : Terms} {r : Reconciler} {b₀ b : BuildObject}
variable {before : BuildStatus} {job : Job}

structure Walk (hash : String → String) (T : Terms)
    (exec : τ → (c : apiServer.Call) → World → apiServer.Reply c → World → Prop)
    (D : Discipline World τ) (t : τ) : Prop where
  grows : ∀ {s s'}, D.rely t s s' → Grows s s'
  logInv : ∀ {s}, D.inv s → LogInv s
  machine : ∀ {c s x s'}, exec t c s x s' → (machine hash).exec c s x s'
  confirm : ∀ {key s job s'}, exec t (.readJob .confirm key) s (.found job) s' → T.seen key job
  digest : ∀ {ref s image s'}, exec t (.resolveDigest ref) s (.ok image) s' → T.pinned image
  allowed : ∀ {c s x s'}, D.inv s → Justified hash T c s → exec t c s x s' → Allowed D t s s'

variable {c : apiServer.Call} (hW : Walk hash T exec D t)
include hW

theorem Walk.safe_call {α : Type} {post : α → World → Prop}
    {next : apiServer.Reply c → Prog α}
    (hj : ∀ w1, Grows w w1 → LogInv w1 → Justified hash T c w1)
    (hn : ∀ w1 x w2, Grows w w1 → Grows w w2 → LogInv w1 → exec t c w1 x w2 →
      Safe exec D t post (next x) w2) :
    Safe exec D t post (.call c next) w := by
  intro w1 hr hi x w2 hx
  have hg := hW.grows hr
  have hl := hW.logInv hi
  have hw := write_logInv hl (exec_write (hW.machine hx))
  exact ⟨hW.allowed hi (hj w1 hg hl) hx,
    hn w1 x w2 hg (hg.trans hw.2) hl hx⟩

theorem Walk.safe_read {α : Type} {post : α → World → Prop}
    {next : apiServer.Reply c → Prog α} (hc : ∀ w, Justified hash T c w)
    (hn : ∀ w1 x w2, Grows w w1 → Grows w w2 → LogInv w1 → exec t c w1 x w2 →
      Safe exec D t post (next x) w2) :
    Safe exec D t post (.call c next) w :=
  hW.safe_call (fun w1 _ _ => hc w1) hn

theorem safe_updateStatus_of (hj : ∀ w1, D.rely t w w1 → Justified hash T (.updateStatus
      { b with status := { b.status with observedGeneration := b.generation } }) w1) :
    Safe exec D t (fun _ _ => True) (updateStatus b before) w := by
  unfold updateStatus
  dsimp only
  split
  · trivial
  simp only [call, perform_bind]
  intro w1 hr hi x w2 hx
  refine ⟨hW.allowed hi (hj w1 hr) hx, ?_⟩
  cases x <;> trivial

theorem safe_updateStatus (hd : Draft hash T w key b₀ b) :
    Safe exec D t (fun _ _ => True) (updateStatus b before) w := by
  obtain rfl := hd.key_eq
  refine safe_updateStatus_of hW fun w1 hr => ?_
  have hd1 := hd.grows (hW.grows hr)
  exact ⟨b₀, hd1.base, hd.version_eq.symm, ⟨hd1.derived.jobRef, hd1.derived.phase,
    hd1.derived.image, hd1.derived.startedAt, hd1.derived.completedAt⟩, .inl hd.steady⟩

section Observe

omit hW in
theorem observeStarted_cases (hj : InHand hash T w key job) :
    (observeStarted b job).status.startedAt = b.status.startedAt ∨
      ∃ job', InHand hash T w key job' ∧
        (observeStarted b job).status.startedAt = job'.status.startTime := by
  simp only [observeStarted]
  cases b.status.startedAt with
  | none => exact .inr ⟨job, hj, by simp⟩
  | some _ => exact .inl (by simp)

variable {name : String} {v : Reason × String}

omit hW in
theorem verdict_ne_featureDisabled {term : Termination} (h : term.verdict name = some v) :
    v.1 ≠ .featureDisabled := by
  unfold Termination.verdict at h
  split_ifs at h <;> cases h <;> simp

omit hW in
theorem podsVerdict_ne_featureDisabled {pods : List Pod} (h : podsVerdict name pods = some v) :
    v.1 ≠ .featureDisabled := by
  unfold podsVerdict at h
  obtain ⟨term, _, ht⟩ := exists_of_findSome?_eq_some h
  exact verdict_ne_featureDisabled ht

variable {cond : JobCondition}

theorem safe_failureReason :
    Safe exec D t (fun verdict w' => Grows w w' ∧ ∀ v, verdict = some v → v.1 ≠ .featureDisabled)
      (failureReason hash b cond) w := by
  unfold failureReason
  split
  · refine ⟨Grows.refl w, ?_⟩
    rintro _ ⟨⟩
    simp
  simp only [call, perform_bind]
  refine hW.safe_read (c := .listPods b.key) (fun _ => trivial) ?_
  intro _ pods w2 _ hg _ _
  cases pods with
  | none => exact ⟨hg, fun _ h => nomatch h⟩
  | some pods =>
    refine ⟨hg, ?_⟩
    rintro _ ⟨⟩
    cases hv : podsVerdict (jobName hash b.key.name) pods with
    | none => simp
    | some v => exact podsVerdict_ne_featureDisabled hv

/-- What a failed Job makes of the object is a draft. -/
theorem safe_observeFailed (hp : Prepared hash w key b₀ b)
    (hj : InHand hash T w key job) (hc : job.status.failed = some cond) :
    Safe exec D t (fun out w' => Draft hash T w' key b₀ out.1)
      (observeFailed hash (observeStarted b job) cond) w := by
  apply Safe.bind
  refine (safe_failureReason hW).mono ?_
  rintro verdict w' ⟨hg, hv⟩
  have hp' := hp.grows hg
  have hj' := hj.grows hg
  have hs := observeStarted_cases (b := b) hj'
  cases verdict with
  | none =>
    exact hp'.draft rfl (.inl rfl) (.inl ⟨rfl, hp.phase_ne⟩) hs
      (.inr ⟨job, hj', .inl ⟨cond, hc, rfl⟩⟩) (.inl rfl)
  | some v =>
    have hph : BuildPhase.failed ≠ .succeeded := by decide
    have hsh : Shows job b.status.phase .failed := .failed (by rw [hc]; rfl)
    exact hp'.draft rfl (.inr (.inl ⟨job, hj', hsh⟩)) (.inl ⟨rfl, hph⟩) hs
      (.inr ⟨job, hj', .inl ⟨cond, hc, rfl⟩⟩)
      (.inr fun h => hv v rfl (Option.some.inj h))

/-- So is what a complete Job makes of it. -/
theorem safe_observeComplete (hp : Prepared hash w key b₀ b)
    (hj : InHand hash T w key job) (hc : job.status.complete = true) :
    Safe exec D t (fun out w' => Draft hash T w' key b₀ out.1)
      (observeComplete r (observeStarted b job) job) w := by
  unfold observeComplete
  split
  · exact hp.draft rfl (.inl rfl) (.inl ⟨rfl, hp.phase_ne⟩) (observeStarted_cases hj) (.inl rfl)
      (.inl rfl)
  rename_i ref _
  simp only [call, perform_bind]
  refine hW.safe_read (c := .resolveDigest ref) (fun _ => trivial) ?_
  intro w1 x w2 _ hg _ hx
  have hp' := hp.grows hg
  have hj' := hj.grows hg
  have hs := observeStarted_cases (b := b) hj'
  cases x with
  | error message =>
    have hph : BuildPhase.running ≠ .succeeded := by decide
    exact hp'.draft rfl (.inr (.inl ⟨job, hj', .running (.inl hc)⟩)) (.inl ⟨rfl, hph⟩)
      hs (.inl rfl) (.inr (by simp [BuildStatus.reason]))
  | ok image =>
    exact hp'.draft rfl (.inr (.inl ⟨job, hj', .succeeded hc⟩))
      (.inr ⟨rfl, hW.digest hx, job, hj', hc⟩) hs
      (.inr ⟨job, hj', .inr ⟨hc, rfl⟩⟩) (.inr (by simp [BuildStatus.reason]))

theorem safe_observeJob (hp : Prepared hash w key b₀ b)
    (hj : InHand hash T w key job) :
    Safe exec D t (fun out w' => Draft hash T w' key b₀ out.1) (observeJob hash r b job) w := by
  have hs := observeStarted_cases (b := b) hj
  unfold observeJob
  dsimp only
  split
  · rename_i cond hcn
    exact safe_observeFailed hW hp hj hcn
  split
  · rename_i hc
    exact safe_observeComplete hW hp hj hc
  split
  · rename_i ha
    have hph : BuildPhase.running ≠ .succeeded := by decide
    exact hp.draft rfl (.inr (.inl ⟨job, hj, .running (.inr ha)⟩)) (.inl ⟨rfl, hph⟩)
      hs (.inl rfl) (.inr (by simp [BuildStatus.reason]))
  split
  · rename_i hf
    have hph : BuildPhase.pending ≠ .succeeded := by decide
    exact hp.draft rfl (.inr (.inl ⟨job, hj, .pending hf⟩)) (.inl ⟨rfl, hph⟩)
      hs (.inl rfl) (.inr (by simp [BuildStatus.reason]))
  · exact hp.draft rfl (.inl rfl) (.inl ⟨rfl, hp.phase_ne⟩) hs (.inl rfl) (.inl rfl)

end Observe

variable (hash) in
/-- What `ensureJob` leaves: a draft to be written, or a Job to be observed. -/
def Ensured (T : Terms) (key : Key) (b₀ : BuildObject)
    (out : BuildObject × Except ReconcileError Job) (w : World) : Prop :=
  match out.2 with
  | .error _ => Draft hash T w key b₀ out.1
  | .ok job => Prepared hash w key b₀ out.1 ∧ InHand hash T w key job

omit hW in
theorem ensured_refuse (hp : Prepared hash w key b₀ b) :
    Ensured hash T key b₀ (refuseForeignJob hash b) w :=
  hp.failBuild _ (by decide) (by decide)

omit hW in
theorem safe_owned (hp : Prepared hash w key b₀ b) (hm : some job ∈ w.jobLogOf hash key) :
    Safe exec D t (Ensured hash T key b₀) (if ownsJob b job then pure (setJobRef hash b, .ok job)
      else pure (refuseForeignJob hash b)) w := by
  split
  · rename_i how
    have ho : Own hash w key job := by
      refine ⟨hm, ?_⟩
      rw [← hp.key_eq]
      simpa [ownsJob] using how
    exact ⟨hp.setJobRef ho, ho.inHand⟩
  · exact ensured_refuse hp

theorem safe_confirmJob (hp : Prepared hash w key b₀ b) :
    Safe exec D t (Ensured hash T key b₀) (confirmJob hash b) w := by
  obtain rfl := hp.key_eq
  simp only [confirmJob, call, perform_bind]
  refine hW.safe_read (c := .readJob .confirm b.key) (fun _ => trivial) ?_
  intro w1 x w2 _ hg _ hx
  have hp2 := hp.grows hg
  cases x with
  | error => exact hp2.toDraft
  | notFound => exact hp2.failBuild _ (by decide) (by decide)
  | found job =>
    obtain ⟨rfl, hj⟩ := exec_readJob_found (hW.machine hx)
    exact ⟨hp2, mem_jobLog_of_job hj, .inr (hW.confirm hx)⟩

/-- A Job is started for a Build with a finalizer and without a reference. -/
theorem safe_startJob (hp : Prepared hash w key b₀ b)
    (hf : b₀.finalizer = true) (hn : b.status.jobRef = none) (hgt : T.gate r.features b) :
    Safe exec D t (Ensured hash T key b₀) (startJob hash r b) w := by
  obtain rfl := hp.key_eq
  simp only [startJob, call, perform_bind]
  apply hW.safe_call
  · intro w1 hg _
    exact ⟨b₀, hp.base.grows hg, hp.uid_eq.symm, hf, hn, hgt⟩
  intro w1 x w2 _ hg _ hx
  have hp2 := hp.grows hg
  cases x with
  | error => exact hp2.toDraft
  | created job =>
    obtain ⟨ha, hm⟩ := exec_createJob (hW.machine hx)
    have how : Own hash w2 b.key job := ⟨hm, ha⟩
    exact ⟨hp2.setJobRef how, how.inHand⟩
  | alreadyExists =>
    refine hW.safe_read (c := .readJob .conflict b.key) (fun _ => trivial) ?_
    intro w3 y w4 _ hg4 _ hy
    have hp4 := hp2.grows hg4
    cases y with
    | error | notFound => exact hp4.toDraft
    | found job =>
      obtain ⟨rfl, hj⟩ := exec_readJob_found (hW.machine hy)
      exact safe_owned hp4 (mem_jobLog_of_job hj)

theorem safe_lookupJob (hp : Prepared hash w key b₀ b)
    (hf : b₀.finalizer = true) (hgt : b.status.jobRef = none → T.gate r.features b) :
    Safe exec D t (Ensured hash T key b₀) (lookupJob hash r b) w := by
  obtain rfl := hp.key_eq
  simp only [lookupJob, call, perform_bind]
  refine hW.safe_read (c := .getJob .lookup b.key) (fun _ => trivial) ?_
  intro w1 x w2 _ hg _ hx
  have hp2 := hp.grows hg
  cases x with
  | error => exact hp2.toDraft
  | found job =>
    obtain ⟨rfl, hm⟩ := exec_getJob (hW.machine hx)
    exact safe_owned hp2 hm
  | notFound =>
    dsimp only
    split
    · exact safe_confirmJob hW hp2
    rename_i hn
    rw [Bool.not_eq_true, Option.isSome_eq_false_iff, Option.isNone_iff_eq_none] at hn
    exact safe_startJob hW hp2 hf hn (hgt hn)

theorem safe_ensureJob (hp : Prepared hash w key b₀ b)
    (hf : b₀.finalizer = true) (hg : b.status.jobRef = none → T.gate r.features b) :
    Safe exec D t (Ensured hash T key b₀) (ensureJob hash r b) w := by
  unfold ensureJob
  split
  · exact hp.failBuild _ (by decide) (by decide)
  split
  · exact hp.toDraft
  · exact safe_lookupJob hW hp hf hg

theorem safe_runJob (hp : Prepared hash w key b₀ b)
    (hf : b₀.finalizer = true) (hg : b.status.jobRef = none → T.gate r.features b) :
    Safe exec D t (fun _ _ => True) (runJob hash r b before) w := by
  apply Safe.bind
  refine (safe_ensureJob hW hp hf hg).mono ?_
  rintro ⟨b', result⟩ w' he
  cases result with
  | error e =>
    apply Safe.bind
    exact (safe_updateStatus hW he).mono fun _ _ _ => trivial
  | ok job =>
    apply Safe.bind
    refine (safe_observeJob hW he.1 he.2).mono ?_
    intro out w'' hd
    apply Safe.bind
    exact (safe_updateStatus hW hd).mono fun _ _ _ => trivial

omit hW in
/-- What `holdJob` goes on with after the update is the state that the update stored. -/
theorem prepared_updated {c : BuildObject} (hl : LogInv w) (hb : Base w c.key b₀)
    (hv : b₀.resourceVersion = c.resourceVersion) (hf : c.finalizer = true)
    (hx : (machine hash).exec (.updateBuild c) w (some b) w') :
    Prepared hash w' c.key b b ∧ b.finalizer = true ∧ w.build c.key = some b₀ ∧
      b = { b₀ with finalizer := true, resourceVersion := w.clock } := by
  obtain ⟨cur, hc, hcv, rfl, rfl⟩ := exec_updateBuild hx
  obtain rfl : cur = b₀ := hl.base_eq hc hb.mem (hcv.trans hv.symm)
  have hs : ¬ (cur.deleting = true ∧ ¬ c.finalizer = true) := fun h => h.2 hf
  rw [if_neg hs, hf]
  have hk : cur.key = c.key := hl.key_eq hb.mem
  refine ⟨prepared_base ⟨?_, hb.live, hb.unfinished⟩ hk, rfl, hc, rfl⟩
  rw [pushBuild_log]
  exact mem_cons_self

/-- The finalizer comes before the Job. The update succeeds only on the state that was
read, and brings back its status. -/
theorem safe_holdJob_of (hp : Prepared hash w key b₀ b)
    (hg : b.status.jobRef = none → T.gate r.features b)
    (hn : ∀ {w1 version}, D.rely t w w1 → D.inv w1 → w1.build key = some b₀ →
      b₀.finalizer = false → b₀.status.jobRef = none →
        T.gate r.features { b₀ with finalizer := true, resourceVersion := version }) :
    Safe exec D t (fun _ _ => True) (holdJob hash r b before) w := by
  obtain rfl := hp.key_eq
  unfold holdJob
  split
  · rename_i hf
    exact safe_runJob hW hp (hp.finalizer_eq ▸ hf) hg
  rename_i hf
  simp only [call, perform_bind]
  intro w1 hr hi x w2 hx
  have hb := hp.base.grows (hW.grows hr)
  have hj : Justified hash T (.updateBuild { b with finalizer := true }) w1 :=
    ⟨b₀, hb.mem, hp.version_eq.symm, by rw [hp.base.live]; rfl, fun h => by cases h⟩
  refine ⟨hW.allowed hi hj hx, ?_⟩
  cases x with
  | none => trivial
  | some new =>
    obtain ⟨hpr, hf', hc, hbl⟩ :=
      prepared_updated (c := { b with finalizer := true }) (hW.logInv hi) hb hp.version_eq.symm
        rfl (hW.machine hx)
    refine safe_runJob hW hpr hf' fun hjr => ?_
    subst hbl
    rw [hp.finalizer_eq, Bool.not_eq_true] at hf
    exact hn hr hi hc hf hjr

theorem safe_holdJob (hT : T.Ungated) (hp : Prepared hash w key b₀ b) :
    Safe exec D t (fun _ _ => True) (holdJob hash r b before) w :=
  safe_holdJob_of hW hp (fun _ => hT.gate _ _) fun _ _ _ _ _ => hT.gate _ _

variable (hash) in
/-- What a live read at a closed gate has found out. -/
def Adopted (w : World) (key : Key) (b₀ : BuildObject) : Option (Option BuildObject) → Prop
  | none => True
  | some none => w.hasOwnJob hash key = false
  | some (some started) => Prepared hash w key b₀ started ∧ started.status.jobRef.isSome ∧
      w.hasOwnJob hash key = true

/-- The live read finds the Build's Job or that there is none. -/
theorem safe_adoptStartedJob (hp : Prepared hash w key b₀ b) :
    Safe exec D t (fun out w' => Grows w w' ∧ D.inv w' ∧ Adopted hash w' key b₀ out)
      (adoptStartedJob hash b) w := by
  obtain rfl := hp.key_eq
  simp only [adoptStartedJob, call, perform_bind]
  intro w1 hr hi x w2 hx
  have hg := hW.grows hr
  refine ⟨hW.allowed (c := .readJob .adopt b.key) hi trivial hx, ?_⟩
  cases x with
  | error =>
    obtain ⟨rfl, _⟩ := exec_readJob (hW.machine hx)
    exact ⟨hg, hi, trivial⟩
  | notFound =>
    obtain ⟨rfl, hj⟩ := exec_readJob_notFound (hW.machine hx)
    exact ⟨hg, hi, by simp [Adopted, World.hasOwnJob, hj]⟩
  | found job =>
    obtain ⟨rfl, hj⟩ := exec_readJob_found (hW.machine hx)
    dsimp only
    split
    · rename_i ho
      have ha : job.annotations = some b.key := by simpa [ownsJob] using ho
      have how : Own hash w2 b.key job := ⟨mem_jobLog_of_job hj, ha⟩
      exact ⟨hg, hi, (hp.grows hg).setJobRef how, rfl, hasOwnJob_iff.mpr ⟨job, hj, ha⟩⟩
    rename_i hf
    refine ⟨hg, hi, ?_⟩
    simpa [Adopted, World.hasOwnJob, hj, ownsJob] using hf

theorem safe_disable (hb : Base w key b) (hk : b.key = key)
    (hd : ∀ w', D.rely t w w' → T.disable key w') (message : String) :
    Safe exec D t (fun _ _ => True)
      (updateStatus (failBuild b .featureDisabled message) b.status) w := by
  subst hk
  refine safe_updateStatus_of hW fun w1 hr => ?_
  have hp : BuildPhase.failed ≠ .succeeded := by decide
  have hdr : Derived hash T w1 b.key b.status
      { (failBuild b .featureDisabled message).status with observedGeneration := b.generation } :=
    ⟨.inl rfl, .inr (.inr ⟨rfl, .featureDisabled, by decide, rfl⟩), .inl ⟨rfl, hp⟩, .inl rfl,
      .inl rfl⟩
  exact ⟨b, hb.grows (hW.grows hr), rfl, hdr, .inr (hd w1 hr)⟩

/-- Without terms on the gate, a reconcile behind it keeps the discipline. -/
theorem safe_gateJob (hT : T.Ungated) (hb : Base w key b)
    (hk : b.key = key) : Safe exec D t (fun _ _ => True) (gateJob hash r b) w := by
  have hp : Prepared hash w key b b := prepared_base hb hk
  unfold gateJob
  split
  · exact safe_holdJob hW hT hp
  split
  · exact safe_holdJob hW hT hp
  apply Safe.bind
  refine (safe_adoptStartedJob hW hp).mono ?_
  rintro out w' ⟨hg, _, ha⟩
  obtain _ | _ | started := out
  · trivial
  · exact safe_disable hW (hb.grows hg) hk (fun w _ => hT.disable key w) _
  · exact safe_holdJob hW hT ha.1

theorem safe_dropFinalizer (hm : some b ∈ w.buildLog key)
    (hk : b.key = key) (hd : b.deleting = true)
    (hrl : ∀ w', D.rely t w w' → T.release { b with finalizer := false } w') :
    Safe exec D t (fun _ _ => True) (dropFinalizer b) w := by
  subst hk
  simp only [dropFinalizer, call, perform_bind]
  intro w1 hr hi x w2 hx
  have hj : Justified hash T (.updateBuild { b with finalizer := false }) w1 :=
    ⟨b, (hW.grows hr).builds hm, rfl, by rw [hd]; rfl, fun _ => hrl w1 hr⟩
  refine ⟨hW.allowed hi hj hx, ?_⟩
  cases x <;> trivial

/-- A Build that is deleted loses its Job, then its finalizer. -/
theorem safe_finalize (hT : ∀ b w, T.release b w)
    (hm : some b ∈ w.buildLog key) (hk : b.key = key) (hd : b.deleting = true) :
    Safe exec D t (fun _ _ => True) (finalize b) w := by
  unfold finalize
  split
  · trivial
  simp only [call, perform_bind]
  refine hW.safe_read (c := .getJob .cleanup b.key) (fun _ => trivial) ?_
  intro w1 x w2 _ hg _ hx
  have hm2 := hg.builds hm
  cases x with
  | error => trivial
  | notFound => exact safe_dropFinalizer hW hm2 hk hd fun w _ => hT _ w
  | found job =>
    obtain ⟨rfl, hj⟩ := exec_getJob (hW.machine hx)
    dsimp only
    split
    · rename_i ho
      apply hW.safe_call
      · intro w3 hg3 _
        have how : Own hash w2 b.key job := ⟨hj, by simpa [ownsJob] using ho⟩
        exact ⟨b, job, hk ▸ hg3.builds hm2, hd, how.grows hg3⟩
      intro _ x _ _ hg4 _ _
      cases x
      · trivial
      · exact safe_dropFinalizer hW (hg4.builds hm2) hk hd fun w _ => hT _ w
    · exact safe_dropFinalizer hW hm2 hk hd fun w _ => hT _ w

/-- A reconcile is safe if its clean-up is, and its work on a live Build. -/
theorem safe_reconcile_of
    (hf : ∀ {w b}, some b ∈ w.buildLog key → b.key = key → b.deleting = true →
      Safe exec D t (fun _ _ => True) (finalize b) w)
    (hgj : ∀ {w b}, D.inv w → Base w key b → b.key = key →
      Safe exec D t (fun _ _ => True) (gateJob hash r b) w) :
    Safe exec D t (fun _ _ => True) (reconcile hash r key) w := by
  simp only [reconcile, call, perform_bind]
  intro w1 hr hi x w2 hx
  have ha := hW.allowed (c := .getBuild key) hi trivial hx
  refine ⟨ha, ?_⟩
  cases x with
  | error | notFound => trivial
  | found b =>
    obtain ⟨rfl, hm⟩ := exec_getBuild (hW.machine hx)
    have hk := (hW.logInv hi).key_eq hm
    dsimp only
    split
    · rename_i hd
      exact hf hm hk hd
    rename_i hl
    split
    · trivial
    · rename_i ho
      exact hgj hi ⟨hm, by simpa using hl, by simpa using ho⟩ hk

theorem safe_reconcile (hT : T.Open) :
    Safe exec D t (fun _ _ => True) (reconcile hash r key) w :=
  safe_reconcile_of hW (safe_finalize hW hT.release) fun _ => safe_gateJob hW hT.toUngated

end Walk

end Orkano.Operator.BuildController
