import Orkano.Operator.BuildController.Revision

/-!
A Build that is deleted and created again under its name. The second object can take a Job of the
first for its own: one left behind, one that the cache still shows, or one created late.
-/
namespace Orkano.Operator.BuildController

open Interleave Program List

variable {hash : String → String} {w w' : World} {key : Key} {t : ℕ}

/-- A Job that a reconcile created, by its uid, and the Build object it was created for. -/
structure Commission where
  job : ℕ
  key : Key
  build : ℕ
deriving DecidableEq, Repr

def recordCommission (w w' : World) : Call → List Commission → List Commission
  | .createJob _ b, log =>
    if w.created.length < w'.created.length then ⟨w.clock, b.key, b.uid⟩ :: log else log
  | _, log => log

/-- The world with the record of commissions, which no program reads. -/
abbrev History := World × List Commission

/-- The workers, with the record beside their world. -/
def recordedWorkers (hash : String → String) (ok : World → Event → Prop) :
    System apiServer History ℕ Errors where
  exec _ c s x s' := (machine hash).exec c s.1 x s'.1 ∧ s'.2 = recordCommission s.1 s'.1 c s.2
  env s s' := Happens ok s.1 s'.1 ∧ s'.2 = s.2
  restart s s' := s' = s
  starts _ p := ∃ r key, p = reconcile hash r key

variable (hash) in
/-- A Job that was stored under the Build's name and was not created for another object
of that name. -/
def ForBuild (s : History) (b : BuildObject) (job : Job) : Prop :=
  some job ∈ s.1.jobLogOf hash b.key ∧
    ∀ c ∈ s.2, c.job = job.uid → c.key = b.key → c.build = b.uid

section Witness

variable {P Q : Job → Prop} {s s' : BuildStatus}

def PhaseFrom (P : Job → Prop) (s : BuildStatus) : Prop :=
  match s.phase with
  | .none => True
  | .pending => ∃ job, P job
  | .running => ∃ job, P job ∧ (job.status.complete ∨ 0 < job.status.active)
  | .succeeded => ∃ job, P job ∧ job.status.complete
  | .failed => (∃ reason ∈ refusals, s.reason = some reason) ∨
      ∃ job, P job ∧ job.status.failed.isSome

/-- Start, phase, completion and image come from Jobs that satisfy `P`. -/
structure ResultFrom (P : Job → Prop) (s : BuildStatus) : Prop where
  startedAt : ∀ at', s.startedAt = some at' → ∃ job, P job ∧ job.status.startTime = some at'
  phase : PhaseFrom P s
  completedAt : ∀ at', s.completedAt = some at' → ∃ job, P job ∧
    ((∃ cond, job.status.failed = some cond ∧ cond.lastTransitionTime = at') ∨
      job.status.complete ∧ job.status.completionTime = some at')
  image : s.image ≠ "" → ∃ job, P job ∧ job.status.complete

theorem exists_mono {R : Job → Prop} (hPQ : ∀ job, P job → Q job) (h : ∃ job, P job ∧ R job) :
    ∃ job, Q job ∧ R job := by
  obtain ⟨job, hj, hR⟩ := h
  exact ⟨job, hPQ job hj, hR⟩

theorem PhaseFrom.mono (h : PhaseFrom P s) (hPQ : ∀ job, P job → Q job) : PhaseFrom Q s := by
  unfold PhaseFrom at h ⊢
  cases hp : s.phase <;> simp only [hp] at h ⊢
  case pending =>
    obtain ⟨job, hj⟩ := h
    exact ⟨job, hPQ job hj⟩
  case running => exact exists_mono hPQ h
  case succeeded => exact exists_mono hPQ h
  case failed => exact h.imp_right (exists_mono hPQ)

theorem ResultFrom.mono (h : ResultFrom P s) (hPQ : ∀ job, P job → Q job) : ResultFrom Q s where
  startedAt at' hat := exists_mono hPQ (h.startedAt at' hat)
  phase := h.phase.mono hPQ
  completedAt at' hat := exists_mono hPQ (h.completedAt at' hat)
  image hne := exists_mono hPQ (h.image hne)

theorem resultFrom_empty : ResultFrom P .empty := by
  constructor <;> simp [BuildStatus.empty, PhaseFrom]

theorem Shows.phaseFrom {job : Job} {phase : BuildPhase} (h : Shows job phase s.phase)
    (hj : P job) : PhaseFrom P s := by
  unfold PhaseFrom
  generalize s.phase = phase' at h
  cases h with
  | failed hf => exact .inr ⟨job, hj, hf⟩
  | succeeded hc => exact ⟨job, hj, hc⟩
  | running hr => exact ⟨job, hj, hr⟩
  | pending _ => exact ⟨job, hj⟩

/-- A revision of an unfinished status from Jobs that satisfy `P`. -/
theorem SeenIn.resultFrom {seen : List Job} (h : SeenIn seen s s') (ho : s.isTerminal = false)
    (hs : ResultFrom P s) (hsn : ∀ job ∈ seen, P job) : ResultFrom P s' where
  startedAt at' hat := by
    rcases h.startedAt with heq | ⟨job, hj, heq⟩
    · exact hs.startedAt at' (heq ▸ hat)
    · exact ⟨job, hsn job hj, heq ▸ hat⟩
  phase := by
    rcases h.phase with heq | ⟨job, hj, hsh⟩ | ⟨heq, hr⟩
    · have hp := hs.phase
      unfold PhaseFrom at hp ⊢
      rw [heq]
      cases hold : s.phase <;> simp only [hold] at hp ⊢
      case pending => exact hp
      case running => exact hp
      case succeeded => simp [BuildStatus.isTerminal, hold] at ho
      case failed => simp [BuildStatus.isTerminal, hold] at ho
    · exact hsh.phaseFrom (hsn job hj)
    unfold PhaseFrom
    rw [heq]
    exact .inl hr
  completedAt at' hat := by
    rcases h.completedAt with heq | ⟨job, hj, ⟨cond, hcn, heq⟩ | ⟨hc, heq⟩⟩
    · exact hs.completedAt at' (heq ▸ hat)
    · rw [heq, Option.some.injEq] at hat
      exact ⟨job, hsn job hj, .inl ⟨cond, hcn, hat⟩⟩
    · exact ⟨job, hsn job hj, .inr ⟨hc, heq ▸ hat⟩⟩
  image hne := by
    rcases h.image with heq | ⟨job, hj, hc⟩
    · exact hs.image (heq ▸ hne)
    · exact ⟨job, hsn job hj, hc⟩

end Witness

variable (hash) in
/-- A Build is created only when no Job names it. -/
def CleanEvent (w : World) : Event → Prop
  | .createBuild key _ _ => w.hasOwnJob hash key = false
  | _ => True

/-- The cache shows no Job that is older than the stored Build it names, and Jobs are
created for the stored object only. -/
def cleanAnswer (w : World) : (c : Call) → c.Reply → Bool
  | .getJob .lookup key, .found job =>
    (w.build key).all fun cur => job.annotations = some key → cur.uid < job.uid
  | .createJob _ b, _ => (w.build b.key).all fun cur => cur.uid = b.uid
  | _, _ => true

def cleanWorkers (hash : String → String) : System apiServer History ℕ Errors :=
  (recordedWorkers hash (CleanEvent hash)).restrict fun _ c s x => cleanAnswer s.1 c x = true

section Ledger

variable {o : Option Job}

theorem mem_pushJob {name name' : String} {job : Job}
    (h : some job ∈ (w.pushJob name o).jobLog name') :
    name' = name ∧ o = some job ∨ some job ∈ w.jobLog name' := by
  by_cases hn : name' = name
  · subst hn
    rw [pushJob_log] at h
    rcases mem_cons.mp h with hnw | hold
    · exact .inl ⟨rfl, hnw.symm⟩
    · exact .inr hold
  · rw [pushJob_log_of_ne hn] at h
    exact .inr h

variable (hash) in
/-- Jobs and commissions are dated, and those of the present Build are younger than it. -/
structure Ledger (s : History) : Prop where
  logInv : LogInv s.1
  jobs : ∀ {name job}, some job ∈ s.1.jobLog name → job.uid < s.1.clock
  dated : ∀ c ∈ s.2, c.job < s.1.clock
  annotated : ∀ c ∈ s.2, ∀ {name job}, some job ∈ s.1.jobLog name → job.uid = c.job →
    job.annotations = some c.key
  younger : ∀ {key cur job}, s.1.build key = some cur → s.1.jobOf hash key = some job →
    job.annotations = some key → cur.uid < job.uid
  current : ∀ {key cur}, s.1.build key = some cur → ∀ c ∈ s.2, c.key = key → cur.uid < c.job →
    c.build = cur.uid

theorem ledger_empty : Ledger hash (World.empty, []) := by
  constructor
  · exact logInv_empty
  · exact fun h => (not_mem_nil h).elim
  · simp
  · simp
  · intro key cur job h
    cases h
  · simp

variable {log : List Commission}

/-- A stored Build keeps its uid, and a new one comes when no Job names it. -/
theorem Ledger.builds (h : Ledger hash (w, log)) (hl : LogInv w')
    (hb : ∀ {key cur}, w'.build key = some cur →
      (∃ old, w.build key = some old ∧ old.uid = cur.uid) ∨
        cur.uid = w.clock ∧ w.hasOwnJob hash key = false)
    (hjb : w'.jobLog = w.jobLog) (hcl : w'.clock = w.clock + 1) : Ledger hash (w', log) := by
  have hjo : ∀ key', w'.jobOf hash key' = w.jobOf hash key' := fun key' => by
    simp only [World.jobOf, World.job, hjb]
  constructor
  · exact hl
  · intro name job hj
    have hlt := h.jobs (hjb ▸ hj)
    dsimp only at hlt ⊢
    omega
  · intro c hc
    have hlt := h.dated c hc
    dsimp only at hlt ⊢
    omega
  · intro c hc name job hj
    exact h.annotated c hc (hjb ▸ hj)
  · intro key' cur job hcr hj ha
    rw [hjo] at hj
    rcases hb hcr with ⟨old, hold, hu⟩ | ⟨_, hn⟩
    · exact hu ▸ h.younger hold hj ha
    · rw [hasOwnJob_iff.mpr ⟨job, hj, ha⟩] at hn
      cases hn
  intro key' cur hcr c hc hk hlt
  rcases hb hcr with ⟨old, hold, hu⟩ | ⟨hu, _⟩
  · exact (h.current hold c hc hk (hu ▸ hlt)).trans hu
  have := h.dated c hc
  dsimp only at this
  omega

/-- A Job keeps its uid and annotations, and a new one has a new uid. -/
theorem Ledger.pushJob (h : Ledger hash (w, log)) {name : String}
    (hb : w'.buildLog = w.buildLog) (hjb : w'.jobLog = (w.pushJob name o).jobLog)
    (hcl : w'.clock = w.clock + 1)
    (ho : ∀ job, o = some job → job.uid = w.clock ∨
      ∃ old, w.job name = some old ∧ old.uid = job.uid ∧ old.annotations = job.annotations) :
    Ledger hash (w', log) := by
  have hbl : ∀ key', w'.build key' = w.build key' := fun key' => by
    simp only [World.build, hb]
  have hm : ∀ {name' job}, some job ∈ w'.jobLog name' → job.uid = w.clock ∨
      ∃ name'' old, some old ∈ w.jobLog name'' ∧ old.uid = job.uid ∧
        old.annotations = job.annotations := by
    intro name' job hj
    rw [hjb] at hj
    rcases mem_pushJob hj with ⟨_, hnw⟩ | hold
    · rcases ho job hnw with hu | ⟨old, hold, heq⟩
      · exact .inl hu
      · exact .inr ⟨name, old, mem_jobLog_of_job hold, heq⟩
    · exact .inr ⟨name', job, hold, rfl, rfl⟩
  constructor
  · exact h.logInv.of_logs hb (by dsimp only; omega)
  · intro name' job hj
    rcases hm hj with heq | ⟨_, old, hold, heq, _⟩
    · dsimp only
      omega
    have := h.jobs hold
    dsimp only at this ⊢
    omega
  · intro c hc
    have := h.dated c hc
    dsimp only at this ⊢
    omega
  · intro c hc name' job hj hu
    rcases hm hj with heq | ⟨_, old, hold, heq, ha⟩
    · have := h.dated c hc
      dsimp only at this
      omega
    · exact ha ▸ h.annotated c hc hold (heq.trans hu)
  · intro key' cur job hcr hj ha
    rw [hbl] at hcr
    have hj' : (w.pushJob name o).job (jobName hash key'.name) = some job := by
      rw [← hj, World.jobOf, World.job, World.job, hjb]
    by_cases hn : jobName hash key'.name = name
    · rw [hn, pushJob_job] at hj'
      rcases ho job hj' with heq | ⟨old, hold, hu, ho'⟩
      · rw [heq]
        exact h.logInv.uid_lt (mem_buildLog_of_build hcr)
      · rw [← hn] at hold
        exact hu ▸ h.younger hcr hold (ho'.trans ha)
    · rw [pushJob_job_of_ne hn] at hj'
      exact h.younger hcr hj' ha
  · intro key' cur hcr
    rw [hbl] at hcr
    exact h.current hcr

/-- A Job of the present Build may be commissioned. -/
theorem Ledger.commission (h : Ledger hash (w, log)) {c : Commission}
    (hlt : c.job < w.clock) (hf : ∀ {name job}, some job ∈ w.jobLog name → job.uid = c.job →
      job.annotations = some c.key)
    (hc : ∀ cur, w.build c.key = some cur → cur.uid = c.build) :
    Ledger hash (w, c :: log) where
  logInv := h.logInv
  jobs := h.jobs
  dated := by
    intro c' hc'
    rcases mem_cons.mp hc' with rfl | hold
    · exact hlt
    · exact h.dated c' hold
  annotated := by
    intro c' hc'
    rcases mem_cons.mp hc' with rfl | hold
    · exact hf
    · exact h.annotated c' hold
  younger := h.younger
  current := by
    intro key cur hcu c' hc' hk hcr
    rcases mem_cons.mp hc' with rfl | hold
    · subst hk
      exact (hc cur hcu).symm
    · exact h.current hcu c' hold hk hcr

theorem prior_write {c : Call} {cur' : BuildObject} (hw : Write hash w c w')
    (hc : w'.build key = some cur') : ∃ cur, w.build key = some cur ∧ cur.uid = cur'.uid := by
  rcases (write_adds hw).stored hc with hold | hn
  · exact ⟨cur', hold, rfl⟩
  · exact hn.prior

theorem recordCommission_self (c : Call) : recordCommission w w c log = log := by
  cases c <;> simp [recordCommission]

/-- Jobs that are created for the stored object keep the record. -/
theorem ledger_write {c : Call} {x : c.Reply} (h : Ledger hash (w, log))
    (hcl : cleanAnswer w c x = true) (hw : Write hash w c w') :
    Ledger hash (w', recordCommission w w' c log) := by
  have hl := (write_logInv h.logInv hw).1
  have hp : ∀ {key cur}, w'.build key = some cur → _ := fun hc => prior_write hw hc
  cases hw with
  | same =>
    rw [recordCommission_self]
    exact h
  | finalizer | gone | status | disable => exact h.builds hl (fun hc => .inl (hp hc)) rfl rfl
  | @created features b hnn =>
    have hps : Ledger hash ({ w.pushJob (jobName hash b.key.name)
        (some ⟨w.clock, some b.key, .empty⟩) with
          created := (features, b) :: w.created }, log) := by
      refine h.pushJob rfl rfl rfl ?_
      rintro _ ⟨⟩
      exact .inl rfl
    simp only [recordCommission, length_cons, Nat.lt_succ_self, if_true]
    refine hps.commission (Nat.lt_succ_self _) ?_ ?_
    · intro name job hj hu
      rcases mem_pushJob (w := w) hj with ⟨_, hn⟩ | hold
      · cases hn
        rfl
      have := h.jobs hold
      dsimp only at this hu
      omega
    · intro cur hc
      have hc' : w.build b.key = some cur := hc
      simpa [cleanAnswer, hc'] using hcl
  | deleted _ =>
    refine h.pushJob rfl rfl rfl ?_
    rintro _ ⟨⟩

/-- Clean events keep Jobs younger than their Builds. -/
theorem ledger_event {e : Event} (h : Ledger hash (w, log)) (hc : CleanEvent hash w e)
    (he : Occurs w e w') : Ledger hash (w', log) := by
  have hl := (event_logInv h.logInv he).1
  have hbl : ∀ {key cur}, w'.build key = some cur →
      (∃ old, w.build key = some old ∧ old.uid = cur.uid) ∨
        cur.uid = w.clock ∧ w.hasOwnJob hash key = false := by
    intro key cur hcr
    rcases (event_adds he).stored hcr with hold | hn
    · exact .inl ⟨cur, hold, rfl⟩
    cases hn with
    | created => exact .inr ⟨rfl, hc⟩
    | marked hb => exact .inl ⟨_, hb, rfl⟩
  cases he with
  | buildCreated | buildMarked | buildGone => exact h.builds hl hbl rfl rfl
  | jobCreated _ =>
    refine h.pushJob rfl rfl rfl ?_
    rintro _ ⟨⟩
    exact .inl rfl
  | jobDeleted _ =>
    refine h.pushJob rfl rfl rfl ?_
    rintro _ ⟨⟩
  | jobStatus hj =>
    refine h.pushJob rfl rfl rfl ?_
    rintro _ ⟨⟩
    exact .inr ⟨_, hj, rfl, rfl⟩

end Ledger

section Onward

structure Onward (s s' : History) : Prop where
  grows : Grows s.1 s'.1
  persists : ∀ {key cur'}, s'.1.build key = some cur' → cur'.uid < s.1.clock →
    ∃ cur, s.1.build key = some cur ∧ cur.uid = cur'.uid
  recorded : ∀ c ∈ s'.2, c ∈ s.2 ∨ s.1.clock ≤ c.job

theorem Onward.refl (s : History) : Onward s s :=
  ⟨Grows.refl _, fun h _ => ⟨_, h, rfl⟩, fun _ => .inl⟩

theorem Onward.trans {s1 s2 s3 : History} (h1 : Onward s1 s2) (h2 : Onward s2 s3) :
    Onward s1 s3 where
  grows := h1.grows.trans h2.grows
  persists hcur hlt := by
    obtain ⟨cur2, hc2, hu2⟩ := h2.persists hcur (hlt.trans_le h1.grows.clock)
    obtain ⟨cur1, hc1, hu1⟩ := h1.persists hc2 (hu2 ▸ hlt)
    exact ⟨cur1, hc1, hu1.trans hu2⟩
  recorded c hc := by
    rcases h2.recorded c hc with hm | hl
    · exact h1.recorded c hm
    · exact .inr (h1.grows.clock.trans hl)

theorem persists_event {e : Event} {cur' : BuildObject} (he : Occurs w e w')
    (hc : w'.build key = some cur') (hlt : cur'.uid < w.clock) :
    ∃ cur, w.build key = some cur ∧ cur.uid = cur'.uid := by
  rcases (event_adds he).stored hc with hold | hn
  · exact ⟨cur', hold, rfl⟩
  cases hn with
  | created => exact absurd hlt (lt_irrefl _)
  | marked hb => exact ⟨_, hb, rfl⟩

variable {log : List Commission}

theorem mem_recordCommission {c : Call} {e : Commission} (h : e ∈ recordCommission w w' c log) :
    e ∈ log ∨ e.job = w.clock := by
  cases c with
  | createJob features b =>
    simp only [recordCommission] at h
    split at h
    · rcases mem_cons.mp h with rfl | hold
      · exact .inr rfl
      · exact .inl hold
    · exact .inl h
  | _ => exact .inl h

theorem onward_write {c : Call} (h : LogInv w) (hw : Write hash w c w') :
    Onward (w, log) (w', recordCommission w w' c log) :=
  ⟨(write_logInv h hw).2, fun hcr _ => prior_write hw hcr,
    fun _ hc => (mem_recordCommission hc).imp_right fun heq => heq.ge⟩

theorem onward_event {e : Event} (h : LogInv w) (he : Occurs w e w') : Onward (w, log) (w', log) :=
  ⟨(event_logInv h he).2, persists_event he, fun _ => .inl⟩

theorem ForBuild.onward {s s' : History} {b : BuildObject} {job : Job} (h : ForBuild hash s b job)
    (hj : job.uid < s.1.clock) (hon : Onward s s') : ForBuild hash s' b job := by
  refine ⟨hon.grows.jobs h.1, fun c hc hcj hk => ?_⟩
  rcases hon.recorded c hc with hold | hl
  · exact h.2 c hold hcj hk
  · omega

variable (hash) in
/-- What a reconcile of an object knows of a Job that it has seen: as long as the object
is stored, the Job is none of another object of the name. -/
structure Marked (b₀ : BuildObject) (job : Job) (s : History) : Prop where
  job_lt : job.uid < s.1.clock
  build_lt : b₀.uid < s.1.clock
  forBuild : ∀ cur, s.1.build b₀.key = some cur → cur.uid = b₀.uid → ForBuild hash s b₀ job

theorem Marked.onward {s s' : History} {b₀ : BuildObject} {job : Job} (h : Marked hash b₀ job s)
    (hon : Onward s s') : Marked hash b₀ job s' where
  job_lt := h.job_lt.trans_le hon.grows.clock
  build_lt := h.build_lt.trans_le hon.grows.clock
  forBuild cur hcur huid := by
    obtain ⟨cur0, hc0, hu0⟩ := hon.persists hcur (huid ▸ h.build_lt)
    exact (h.forBuild cur0 hc0 (hu0.trans huid)).onward h.job_lt hon

end Onward

section Discipline

variable (hash) in
structure CleanInv (s : History) : Prop where
  ledger : Ledger hash s
  results : ∀ {key b}, some b ∈ s.1.buildLog key → ResultFrom (ForBuild hash s b) b.status

variable {s s' : History}
variable {b : BuildObject}

theorem CleanInv.kept (h : CleanInv hash s) (hon : Onward s s') (hb : some b ∈ s.1.buildLog key) :
    ResultFrom (ForBuild hash s' b) b.status :=
  (h.results hb).mono fun _ hj => hj.onward (h.ledger.jobs hj.1) hon

variable {A : Answers} {r : Reconciler} {log : List Commission}

theorem CleanInv.revised {cur : BuildObject} (h : CleanInv hash (w, log))
    (hon : Onward (w, log) s') (hs : Sound A r Prod.fst (Marked hash) (.updateStatus b) (w, log))
    (hc : w.build b.key = some cur) (hv : cur.resourceVersion = b.resourceVersion) :
    ResultFrom (ForBuild hash s' cur) b.status := by
  obtain ⟨b₀, seen, hb, hr, hsn⟩ := hs
  obtain rfl := h.ledger.logInv.base_eq hc hb.mem (hv.trans hr.version)
  have hk : cur.key = b.key := h.ledger.logInv.key_eq hb.mem
  have hf : ∀ job ∈ seen, ForBuild hash (w, log) cur job := fun job hj =>
    (hsn job hj).forBuild cur (hk ▸ hc) rfl
  have hrs := hr.seenIn.resultFrom hb.unfinished (h.results hb.mem) hf
  exact hrs.mono fun _ hj => hj.onward (h.ledger.jobs hj.1) hon

variable {c : Call}

theorem cleanInv_write {x : c.Reply} (h : CleanInv hash (w, log))
    (hs : Sound A r Prod.fst (Marked hash) c (w, log)) (hcl : cleanAnswer w c x = true)
    (hw : Write hash w c w') : CleanInv hash (w', recordCommission w w' c log) := by
  have hl := ledger_write h.ledger hcl hw
  have hon : Onward (w, log) (w', recordCommission w w' c log) :=
    onward_write h.ledger.logInv hw
  refine ⟨hl, fun hb => ?_⟩
  rcases (write_adds hw).mem hb with hold | hn
  · exact h.kept hon hold
  cases hn with
  | finalizer hc => exact (h.kept hon (mem_buildLog_of_build hc) :)
  | status hc hv => exact (h.revised hon hs hc hv :)

theorem cleanInv_event {e : Event} (h : CleanInv hash (w, log)) (hc : CleanEvent hash w e)
    (he : Occurs w e w') : CleanInv hash (w', log) := by
  have hl := ledger_event h.ledger hc he
  have hon : Onward (w, log) (w', log) := onward_event h.ledger.logInv he
  refine ⟨hl, fun hb => ?_⟩
  rcases (event_adds he).mem hb with hold | hn
  · exact h.kept hon hold
  cases hn with
  | created => exact resultFrom_empty
  | marked hcr => exact (h.kept hon (mem_buildLog_of_build hcr) :)

variable {b₀ : BuildObject} {job : Job}

theorem Ledger.forBuild (h : Ledger hash s) {cur : BuildObject}
    (hj : some job ∈ s.1.jobLogOf hash b₀.key) (hcr : s.1.build b₀.key = some cur)
    (hu : cur.uid = b₀.uid) (hy : job.annotations = some b₀.key → cur.uid < job.uid) :
    ForBuild hash s b₀ job := by
  refine ⟨hj, fun c hc hcj hk => ?_⟩
  have ha := h.annotated c hc hj hcj.symm
  rw [hk] at ha
  have hlt := hy ha
  rw [← hcj] at hlt
  exact (h.current hcr c hc hk hlt).trans hu

theorem Ledger.marked (h : Ledger hash s) (hb : some b₀ ∈ s.1.buildLog b₀.key)
    (hj : some job ∈ s.1.jobLogOf hash b₀.key)
    (hy : ∀ cur, s.1.build b₀.key = some cur → job.annotations = some b₀.key →
      cur.uid < job.uid) : Marked hash b₀ job s where
  job_lt := h.jobs hj
  build_lt := h.logInv.uid_lt hb
  forBuild cur hcur huid := h.forBuild hj hcur huid (hy cur hcur)

theorem created_uid {features : List Feature}
    (h : (machine hash).exec (.createJob features b) w (.created job) w') :
    job.uid = w.clock ∧ w'.buildLog = w.buildLog := by
  obtain ⟨_ | _ | _, hk⟩ := h
  · have hr : w.createJob hash features b = (.created job, w') := Option.some.inj hk
    unfold World.createJob at hr
    split at hr
    · cases hr
    · cases hr
      simp [World.pushJob]
  · cases hk
  · cases hk

/-- A Job that a clean answer shows was made for this object. -/
theorem marked_of_shown {x : c.Reply} (h : Ledger hash (w, log))
    (hb : some b₀ ∈ w.buildLog b₀.key) (ha : c.About b₀) (hcl : cleanAnswer w c x = true)
    (hx : (machine hash).exec c w x w') (hs : shown c x = some job) :
    Marked hash b₀ job (w', recordCommission w w' c log) := by
  have hl := ledger_write h hcl (exec_write hx)
  have hg := (write_logInv h.logInv (exec_write hx)).2
  have hb' : some b₀ ∈ w'.buildLog b₀.key := hg.builds hb
  cases c with
  | getJob why key =>
    cases why with
    | cleanup => exact ha.elim
    | lookup =>
      cases x with
      | found job' =>
        cases hs
        cases ha
        obtain ⟨rfl, hm⟩ := exec_getJob hx
        refine hl.marked hb' hm fun cur hc han => ?_
        have hc' : w'.build b₀.key = some cur := hc
        simpa [cleanAnswer, hc', han] using hcl
      | notFound | error => cases hs
  | readJob why key =>
    cases x with
    | found job' =>
      cases hs
      cases ha
      obtain ⟨rfl, hj⟩ := exec_readJob_found hx
      exact hl.marked hb' (mem_jobLog_of_job hj) fun cur hc => h.younger hc hj
    | notFound | error => cases hs
  | createJob features b =>
    cases x with
    | created job' =>
      cases hs
      obtain ⟨hu, hbl⟩ := created_uid hx
      have hm := (exec_createJob hx).2
      rw [ha.1] at hm
      refine hl.marked hb' hm fun cur hc _ => ?_
      have hc' : w.build b₀.key = some cur := by
        rw [← hc, World.build, World.build, hbl]
      rw [hu]
      exact h.logInv.uid_lt (mem_buildLog_of_build hc')
    | alreadyExists | error => cases hs
  | _ => cases hs

variable (hash) in
def cleanDiscipline : Discipline History ℕ where
  inv := CleanInv hash
  evolves _ _ := True
  rely _ := Onward
  evolves_refl _ := trivial
  evolves_trans := fun _ _ => trivial
  rely_refl _ := Onward.refl
  rely_trans _ := fun h₁ h₂ => h₁.trans h₂

theorem cleanExec {x : c.Reply} (h : (cleanWorkers hash).exec t c s x s') :
    cleanAnswer s.1 c x = true ∧ (machine hash).exec c s.1 x s'.1 ∧
      s' = (s'.1, recordCommission s.1 s'.1 c s.2) :=
  ⟨h.1, h.2.1, Prod.ext rfl h.2.2⟩

theorem cleanExec_onward {x : c.Reply} (hi : CleanInv hash s)
    (h : (cleanWorkers hash).exec t c s x s') : Onward s s' := by
  obtain ⟨_, hx, heq⟩ := cleanExec h
  rw [heq]
  exact onward_write hi.ledger.logInv (exec_write hx)

theorem cleanWorkers_walk :
    RevisionWalk hash .any r Prod.fst (Marked hash) (cleanWorkers hash).exec (cleanDiscipline hash)
      t where
  grows hr := hr.grows
  logInv hi := hi.ledger.logInv
  machine h := h.2.1
  fits _ := fits_any _ _
  marks hi hbase habout h hshown := by
    obtain ⟨hc, hx, heq⟩ := cleanExec h
    rw [heq]
    exact marked_of_shown hi.ledger hbase.mem habout hc hx hshown
  kept hi hmarked h := hmarked.onward (cleanExec_onward hi h)
  lasts hmarked hr := hmarked.onward hr
  allowed hi hsound h := by
    have hon := cleanExec_onward hi h
    obtain ⟨hc, hx, heq⟩ := cleanExec h
    refine ⟨?_, trivial, fun _ _ => hon⟩
    rw [heq]
    exact cleanInv_write hi hsound hc (exec_write hx)

/-- Any number of reconciles at once keep to Jobs of their own objects. -/
theorem cleanWorkers_respects :
    (cleanWorkers hash).Respects (cleanDiscipline hash) fun _ _ _ => True where
  starts := by
    rintro t p s ⟨r, key, rfl⟩ _
    exact (cleanWorkers_walk (r := r)).safe_reconcile
  lasts := fun _ _ _ _ _ _ => trivial
  env := by
    rintro ⟨w, log⟩ ⟨w', log'⟩ hs ⟨⟨e, hc, he⟩, hl⟩
    have hsm : log' = log := hl
    subst hsm
    have ho := event_occurs he
    exact ⟨cleanInv_event hs hc ho, trivial,
      fun _ => onward_event hs.ledger.logInv ho⟩
  restart := by
    rintro s _ hs rfl
    exact ⟨hs, trivial⟩

theorem cleanInv_empty : CleanInv hash (World.empty, []) :=
  ⟨ledger_empty, fun h => (not_mem_nil h).elim⟩

/-- In every run that meets the conditions, start, phase, completion and image of every
state of every Build come from Jobs that were not created for another object of its name. -/
theorem recreated_build_inherits_nothing {c : Config apiServer History ℕ Errors}
    (hc : (cleanWorkers hash).Steps (Config.idle (World.empty, [])) c) (key : Key) (b : BuildObject)
    (hb : some b ∈ c.shared.1.buildLog key) : ResultFrom (ForBuild hash c.shared b) b.status := by
  have hgood := System.reachable_good cleanWorkers_respects (System.good_idle cleanInv_empty) hc
  exact hgood.1.inv.results hb

end Discipline

def recordedMachine (ok : World → (c : Call) → c.Reply → Bool) : Machine apiServer History where
  Choice := Call.Choice
  answer c k s := do
    let (x, w') ← answer sampleHash c k s.1
    guard (ok s.1 c x)
    return (x, w', recordCommission s.1 w' c s.2)

theorem recordedMachine_exec {ok : World → (c : Call) → c.Reply → Bool} {c : Call} {x : c.Reply}
    {s s' : History} (h : (recordedMachine ok).exec c s x s') :
    ok s.1 c x = true ∧ (machine sampleHash).exec c s.1 x s'.1 ∧
      s'.2 = recordCommission s.1 s'.1 c s.2 := by
  obtain ⟨k, hk⟩ := h
  obtain ⟨⟨x1, w1⟩, ha, hr⟩ := Option.bind_eq_some_iff.mp hk
  obtain ⟨_, hok, hp⟩ := Option.bind_eq_some_iff.mp hr
  have heq := Option.some.inj hp
  cases heq
  exact ⟨by simpa [guard] using hok, ⟨k, ha⟩, rfl⟩

def History.afterEvent (s : History) (e : Event) : History := (s.1.afterEvent e, s.2)

/-- A reconcile of the sample Build, with the Job cache `lag` states behind. -/
def History.reconciled (ok : World → (c : Call) → c.Reply → Bool) (lag : ℕ) (s : History) :
    History :=
  (recordedMachine ok).after (fun c s => laggingPick lag c s.1)
    (reconcile sampleHash sampleReconciler sampleKey) s

section Steps

variable {okEvent : World → Event → Prop} {ok : World → (c : Call) → c.Reply → Bool}
variable {M : System apiServer History ℕ Errors} {s : History}

theorem steps_recordedEvent (hen : M.env = (recordedWorkers sampleHash okEvent).env) (e : Event)
    (hok : okEvent s.1 e) (he : (s.1.event e).isSome) :
    M.Steps (Config.idle s) (Config.idle (s.afterEvent e)) := by
  obtain ⟨w', hw'⟩ := Option.isSome_iff_exists.mp he
  refine .single (.env ?_)
  rw [hen]
  exact ⟨⟨e, hok, by simp [History.afterEvent, World.afterEvent, hw']⟩, rfl⟩

theorem steps_reconciled (hs : M.starts = (recordedWorkers sampleHash okEvent).starts)
    (he : ∀ c s x s', (recordedMachine ok).exec c s x s' → M.exec 0 c s x s') (lag : ℕ)
    (h : ((recordedMachine ok).simulate (fun c s => laggingPick lag c s.1)
      (reconcile sampleHash sampleReconciler sampleKey) s).isSome) :
    M.Steps (Config.idle s) (Config.idle (s.reconciled ok lag)) := by
  refine steps_reconcile ?_ he h
  rw [hs]
  exact ⟨_, _, rfl⟩

end Steps

def History.completed (s : History) : History :=
  s.afterEvent (.setJobStatus "web-1" completeStatus)

def startedHistory : History :=
  History.reconciled cleanAnswer 0
    (History.afterEvent (World.empty, []) (.createBuild sampleKey sampleSpec 0))

/-- The Job of the first Build completes, and the Build is deleted with it. -/
def finalizedHistory : History :=
  (startedHistory.completed.afterEvent (.deleteBuild sampleKey)).reconciled cleanAnswer 0

/-- The Build is created, built and deleted in a run of the system. -/
theorem steps_finalized {okEvent : World → Event → Prop} {M : System apiServer History ℕ Errors}
    (hevent : ∀ w e, CleanEvent sampleHash w e → okEvent w e)
    (hen : M.env = (recordedWorkers sampleHash okEvent).env)
    (hs : M.starts = (recordedWorkers sampleHash okEvent).starts)
    (he : ∀ c s x s', (recordedMachine cleanAnswer).exec c s x s' → M.exec 0 c s x s') :
    M.Steps (Config.idle (World.empty, [])) (Config.idle finalizedHistory) := by
  have hstarted : M.Steps (Config.idle (World.empty, [])) (Config.idle startedHistory) :=
    (steps_recordedEvent hen _ (hevent _ _ (by unfold CleanEvent; decide +kernel))
      (by decide +kernel)).trans (steps_reconciled hs he 0 (by decide +kernel))
  have hcompleted : M.Steps (Config.idle startedHistory) (Config.idle startedHistory.completed) :=
    steps_recordedEvent hen (.setJobStatus "web-1" completeStatus) (hevent _ _ trivial)
      (by decide +kernel)
  have hfinalized : M.Steps (Config.idle startedHistory.completed)
      (Config.idle finalizedHistory) :=
    (steps_recordedEvent hen (.deleteBuild sampleKey) (hevent _ _ trivial)
      (by decide +kernel)).trans (steps_reconciled hs he 0 (by decide +kernel))
  exact (hstarted.trans hcompleted).trans hfinalized

/-- It is created again, for another commit. -/
def recreatedHistory : History :=
  finalizedHistory.afterEvent (.createBuild sampleKey { sampleSpec with commit := "decaf" } 0)

def rebuiltHistory : History :=
  (recreatedHistory.reconciled cleanAnswer 0).completed.reconciled cleanAnswer 0

/-- With a cache that keeps up, the second Build gets a Job of its own and succeeds by it. -/
theorem rebuilt_build_succeeds :
    (rebuiltHistory.1.build sampleKey).map (fun b => (b.uid, b.status.phase)) =
        some (8, .succeeded) ∧
      ∀ b, some b ∈ rebuiltHistory.1.buildLog sampleKey →
        ResultFrom (ForBuild sampleHash rebuiltHistory b) b.status := by
  let M := cleanWorkers sampleHash
  have henv : M.env = (recordedWorkers sampleHash (CleanEvent sampleHash)).env := rfl
  have hstarts : M.starts = (recordedWorkers sampleHash (CleanEvent sampleHash)).starts := rfl
  have hexec : ∀ c s x s', (recordedMachine cleanAnswer).exec c s x s' → M.exec 0 c s x s' :=
    fun _ _ _ _ => recordedMachine_exec
  have hfinalized : M.Steps (Config.idle (World.empty, [])) (Config.idle finalizedHistory) :=
    steps_finalized (fun _ _ h => h) henv hstarts hexec
  have hrecreated : M.Steps (Config.idle finalizedHistory)
      (Config.idle (recreatedHistory.reconciled cleanAnswer 0)) :=
    (steps_recordedEvent henv _ (by unfold CleanEvent; decide +kernel) (by decide +kernel)).trans
      (steps_reconciled hstarts hexec 0 (by decide +kernel))
  have hrebuilt : M.Steps (Config.idle (recreatedHistory.reconciled cleanAnswer 0))
      (Config.idle rebuiltHistory) :=
    (steps_recordedEvent henv (.setJobStatus "web-1" completeStatus) trivial
      (by decide +kernel)).trans (steps_reconciled hstarts hexec 0 (by decide +kernel))
  exact ⟨by decide +kernel, recreated_build_inherits_nothing
    ((hfinalized.trans hrecreated).trans hrebuilt) sampleKey⟩

def anyAnswer (_ : World) (c : Call) (_ : c.Reply) : Bool := true

/-- The cache still shows the Job that was deleted. -/
def inheritedHistory : History := recreatedHistory.reconciled anyAnswer 1

/-- The new Build succeeds at once, although every Job that was ever stored under its
name was created for its predecessor. -/
theorem recreated_build_inherits_result :
    (recordedWorkers sampleHash fun _ _ => True).Steps (Config.idle (World.empty, []))
        (Config.idle inheritedHistory) ∧
      ∃ b, inheritedHistory.1.build sampleKey = some b ∧ b.status.phase = .succeeded ∧
        b.status.startedAt = some 1 ∧ b.status.completedAt = some 2 ∧
        ∀ job, ¬ ForBuild sampleHash inheritedHistory b job := by
  let M := recordedWorkers sampleHash fun _ _ => True
  have hfinalized : M.Steps (Config.idle (World.empty, [])) (Config.idle finalizedHistory) :=
    steps_finalized (fun _ _ _ => trivial) rfl rfl fun _ _ _ _ h => (recordedMachine_exec h).2
  have hinherited : M.Steps (Config.idle finalizedHistory) (Config.idle inheritedHistory) :=
    (steps_recordedEvent rfl _ trivial (by decide +kernel)).trans
      (steps_reconciled rfl (fun _ _ _ _ h => (recordedMachine_exec h).2) 1 (by decide +kernel))
  refine ⟨hfinalized.trans hinherited, ?_⟩
  have hstatus : (inheritedHistory.1.build sampleKey).map (fun b =>
      (b.key, b.uid, b.status.phase, b.status.startedAt, b.status.completedAt)) =
      some (sampleKey, 8, .succeeded, some 1, some 2) := by
    decide +kernel
  have hjobs : ∀ o ∈ inheritedHistory.1.jobLogOf sampleHash sampleKey, ∀ job ∈ o,
      (⟨job.uid, sampleKey, 0⟩ : Commission) ∈ inheritedHistory.2 := by
    decide +kernel
  obtain ⟨b, hb, hfields⟩ := Option.map_eq_some_iff.mp hstatus
  simp only [Prod.mk.injEq] at hfields
  obtain ⟨hkey, huid, hphase, hstartedAt, hcompletedAt⟩ := hfields
  refine ⟨b, hb, hphase, hstartedAt, hcompletedAt, fun job hjob => ?_⟩
  obtain ⟨hmem, hfor⟩ := hjob
  rw [hkey] at hmem
  have hbuild := hfor _ (hjobs _ hmem job rfl) rfl hkey.symm
  rw [huid] at hbuild
  cases hbuild

end Orkano.Operator.BuildController
