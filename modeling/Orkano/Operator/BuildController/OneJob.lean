import Orkano.Operator.BuildController.Walk

/-!
How many Jobs a Build gets. Between a create and the moment the reference is stored and seen,
nothing but the Job itself says that there was one.
-/
namespace Orkano.Operator.BuildController

open Interleave Program List

variable {hash : String → String} {w w' : World} {key : Key} {t : ℕ}

/-- The stored Build is live and has no reference to a Job. -/
def Untracked (w : World) (key : Key) (uid : ℕ) : Prop :=
  ∃ b, w.build key = some b ∧ b.uid = uid ∧ b.deleting = false ∧ b.status.jobRef = none

instance (w : World) (key : Key) (uid : ℕ) : Decidable (Untracked w key uid) :=
  match h : w.build key with
  | none => .isFalse fun ⟨b, hb, _⟩ => by rw [h] at hb; cases hb
  | some b =>
    decidable_of_iff (b.uid = uid ∧ b.deleting = false ∧ b.status.jobRef = none)
      ⟨fun hb => ⟨b, h, hb⟩, fun ⟨b', hb', hrest⟩ => by rw [h] at hb'; cases hb'; exact hrest⟩

/-- The Job may go: it names no Build that is live and untracked. -/
def MayGo (w : World) (job : Option Job) : Prop :=
  ∀ j ∈ job, ∀ key ∈ j.annotations, ∀ b ∈ w.build key, ¬ Untracked w key b.uid

instance (w : World) (job : Option Job) : Decidable (MayGo w job) :=
  inferInstanceAs (Decidable
    (∀ j ∈ job, ∀ key ∈ j.annotations, ∀ b ∈ w.build key, ¬ Untracked w key b.uid))

variable (hash) in
/-- A clean-up deletes only a Job that may go, and a create that goes through is for a Build
that is stored as live and untracked. -/
def TrackedCall (w : World) : Call → Prop
  | .deleteJob key => MayGo w (w.jobOf hash key)
  | .createJob _ b => w.jobOf hash b.key = none → Untracked w b.key b.uid
  | _ => True

instance (w : World) : (c : Call) → Decidable (TrackedCall hash w c)
  | .deleteJob key => inferInstanceAs (Decidable (MayGo w (w.jobOf hash key)))
  | .createJob _ b =>
    inferInstanceAs (Decidable (w.jobOf hash b.key = none → Untracked w b.key b.uid))
  | .getBuild _ | .updateBuild _ | .updateStatus _ | .getJob _ _ | .readJob _ _ | .listPods _
  | .resolveDigest _ => inferInstanceAs (Decidable True)

/-- Others create Jobs without the annotations, and delete only Jobs that may go. -/
def TrackedEvent (w : World) : Event → Prop
  | .createJob _ annotations _ => annotations = none
  | .deleteJob name => MayGo w (w.job name)
  | _ => True

def trackedWorkers (hash : String → String) : System apiServer World ℕ Errors :=
  (workers hash TrackedEvent).restrict fun _ c w _ => TrackedCall hash w c

variable (hash) in
/-- No Build got two Jobs, and while one that got a Job is untracked, the Job is there. -/
structure OnceInv (w : World) : Prop where
  logInv : LogInv w
  uid_lt : ∀ e ∈ w.created, e.2.uid < w.clock
  once : (w.created.map fun e => (e.2.key, e.2.uid)).Nodup
  there : ∀ e ∈ w.created, Untracked w e.2.key e.2.uid →
    ∃ job, w.jobOf hash e.2.key = some job ∧ job.annotations = some e.2.key

variable (hash) in
def onceDiscipline : Discipline World ℕ where
  inv := OnceInv hash
  evolves _ _ := True
  rely _ := Grows
  evolves_refl _ := trivial
  evolves_trans := fun _ _ => trivial
  rely_refl _ := Grows.refl
  rely_trans _ := fun h₁ h₂ => h₁.trans h₂

theorem OnceInv.builds (h : OnceInv hash w) (hl : LogInv w') (hcl : w.clock ≤ w'.clock)
    (hc : w'.created = w.created) (hj : w'.jobLog = w.jobLog)
    (hu : ∀ e ∈ w.created, Untracked w' e.2.key e.2.uid → Untracked w e.2.key e.2.uid) :
    OnceInv hash w' where
  logInv := hl
  uid_lt e he := (h.uid_lt e (hc ▸ he)).trans_le hcl
  once := hc ▸ h.once
  there e he hun := by
    rw [hc] at he
    simp only [World.jobOf, World.job, hj]
    exact h.there e he (hu e he hun)

/-- A step of the Jobs that leaves the Builds and every Job that is still needed. -/
theorem OnceInv.jobs (h : OnceInv hash w) (hb : w'.buildLog = w.buildLog)
    (hcl : w.clock ≤ w'.clock) (hc : w'.created = w.created)
    (hk : ∀ key job, w.jobOf hash key = some job → job.annotations = some key →
      (∃ uid, Untracked w key uid) →
        ∃ job', w'.jobOf hash key = some job' ∧ job'.annotations = some key) : OnceInv hash w' where
  logInv := h.logInv.of_logs hb hcl
  uid_lt e he := (h.uid_lt e (hc ▸ he)).trans_le hcl
  once := hc ▸ h.once
  there e he hun := by
    rw [hc] at he
    have hun' : Untracked w e.2.key e.2.uid := by
      simpa only [Untracked, World.build, hb] using hun
    obtain ⟨job, hj, ha⟩ := h.there e he hun'
    exact hk _ job hj ha ⟨_, hun'⟩

/-- A new state of a Build is untracked only if the one before was. -/
theorem untracked_push {cur new : BuildObject} {key' : Key} {uid : ℕ}
    (hc : w.build key = some cur) (hu : new.uid = cur.uid)
    (hd : new.deleting = false → cur.deleting = false)
    (hjr : new.status.jobRef = none → cur.status.jobRef = none)
    (h : Untracked (w.pushBuild key (some new)) key' uid) : Untracked w key' uid := by
  obtain ⟨b, hb, hbd, hl, hn⟩ := h
  by_cases hk : key' = key
  · subst hk
    rw [pushBuild_build, Option.some.injEq] at hb
    subst hb
    exact ⟨cur, hc, hu.symm.trans hbd, hd hl, hjr hn⟩
  · rw [pushBuild_build_of_ne hk] at hb
    exact ⟨b, hb, hbd, hl, hn⟩

theorem untracked_push_none {key' : Key} {uid : ℕ} (h : Untracked (w.pushBuild key none) key' uid) :
    Untracked w key' uid := by
  obtain ⟨b, hb, hr⟩ := h
  by_cases hk : key' = key
  · subst hk
    rw [pushBuild_build] at hb
    cases hb
  · rw [pushBuild_build_of_ne hk] at hb
    exact ⟨b, hb, hr⟩

theorem keeps_push {name : String} {o : Option Job} (hgo : MayGo w (w.job name)) (key : Key)
    (job : Job) (hj : w.jobOf hash key = some job) (ha : job.annotations = some key)
    (hun : ∃ uid, Untracked w key uid) :
    ∃ job', (w.pushJob name o).jobOf hash key = some job' ∧ job'.annotations = some key := by
  obtain ⟨uid, b, hb, hu, hr⟩ := hun
  have hn : jobName hash key.name ≠ name := by
    rintro rfl
    exact hgo job hj key ha b hb ⟨b, hb, rfl, hr⟩
  exact ⟨job, (pushJob_job_of_ne hn o).trans hj, ha⟩

/-- A create for an untracked Build without a Job makes the only one. -/
theorem onceInv_created {features : List Feature} {b b0 : BuildObject} (h : OnceInv hash w)
    (hb0 : some b0 ∈ w.buildLog b.key) (hu : b0.uid = b.uid) (hn : w.jobOf hash b.key = none)
    (hun : Untracked w b.key b.uid) :
    OnceInv hash { w.pushJob (jobName hash b.key.name) (some ⟨w.clock, some b.key, .empty⟩) with
      created := (features, b) :: w.created } where
  logInv := h.logInv.of_logs rfl (Nat.le_succ _)
  uid_lt e he := by
    rcases mem_cons.mp he with rfl | hold
    · exact (hu ▸ h.logInv.uid_lt hb0).trans (Nat.lt_succ_self _)
    · exact (h.uid_lt e hold).trans (Nat.lt_succ_self _)
  once := by
    rw [map_cons, nodup_cons]
    refine ⟨?_, h.once⟩
    intro hm
    obtain ⟨e, he, heq⟩ := mem_map.mp hm
    obtain ⟨hk, hs⟩ := Prod.mk.inj heq
    obtain ⟨job, hj, _⟩ := h.there e he (by rw [hk, hs]; exact hun)
    rw [hk, hn] at hj
    cases hj
  there e he hune := by
    obtain ⟨job, hj, ha⟩ : ∃ job, (w.pushJob (jobName hash b.key.name)
        (some ⟨w.clock, some b.key, .empty⟩)).jobOf hash e.2.key = some job ∧
          job.annotations = some e.2.key := by
      rcases mem_cons.mp he with rfl | hold
      · exact ⟨_, pushJob_job _, rfl⟩
      obtain ⟨job, hj, ha⟩ := h.there e hold hune
      have hnm : jobName hash e.2.key.name ≠ jobName hash b.key.name := by
        intro hnm
        unfold World.jobOf at hj hn
        rw [hnm, hn] at hj
        cases hj
      exact ⟨job, (pushJob_job_of_ne hnm _).trans hj, ha⟩
    exact ⟨job, (jobOf_of_jobLog rfl).trans hj, ha⟩

theorem jobRef_of_justified {b cur : BuildObject} (h : LogInv w)
    (hj : Justified hash Terms.none (.updateStatus b) w) (hc : w.build b.key = some cur)
    (hv : cur.resourceVersion = b.resourceVersion) (hn : b.status.jobRef = none) :
    cur.status.jobRef = none := by
  obtain ⟨b0, hb, hb0, hd, _⟩ := hj
  obtain rfl := h.base_eq hc hb.mem (hv.trans hb0.symm)
  rcases hd.jobRef with heq | ⟨heq, _⟩
  · exact heq ▸ hn
  · rw [hn] at heq
    cases heq

/-- No write of a reconcile makes a second Job for a Build. -/
theorem onceInv_write {c : Call} (h : OnceInv hash w) (hj : Justified hash Terms.none c w)
    (ht : TrackedCall hash w c) (hw : Write hash w c w') : OnceInv hash w' := by
  obtain ⟨hl, hg⟩ := write_logInv h.logInv hw
  cases hw with
  | same => exact h
  | finalizer hc _ _ =>
    exact h.builds hl hg.clock rfl rfl fun _ _ => untracked_push hc rfl id id
  | gone _ _ _ _ => exact h.builds hl hg.clock rfl rfl fun _ _ => untracked_push_none
  | status hc hv _ =>
    have hjr := jobRef_of_justified h.logInv hj hc hv
    exact h.builds hl hg.clock rfl rfl fun _ _ => untracked_push hc rfl id hjr
  | disable hc hv _ _ =>
    have hjr := jobRef_of_justified h.logInv hj hc hv
    exact h.builds hl hg.clock rfl rfl fun _ _ => untracked_push hc rfl id hjr
  | created hn =>
    obtain ⟨b0, hb, hu, _⟩ := hj
    exact onceInv_created h hb.mem hu hn (ht hn)
  | deleted hjb => exact h.jobs rfl hg.clock rfl (keeps_push ht)

/-- Nor does anything that others do. -/
theorem onceInv_event {e : Event} (h : OnceInv hash w) (hok : TrackedEvent w e)
    (he : Occurs w e w') : OnceInv hash w' := by
  obtain ⟨hl, hg⟩ := event_logInv h.logInv he
  cases he with
  | @buildCreated key _ _ hn =>
    refine h.builds hl hg.clock rfl rfl ?_
    rintro e he ⟨b, hb, hu, hr⟩
    by_cases hk : e.2.key = key
    · -- the uid of a new Build is fresh
      rw [hk, pushBuild_build, Option.some.injEq] at hb
      subst hb
      have hlt := h.uid_lt e he
      dsimp only at hu
      omega
    · rw [pushBuild_build_of_ne hk] at hb
      exact ⟨b, hb, hu, hr⟩
  | buildMarked hb _ =>
    exact h.builds hl hg.clock rfl rfl fun _ _ => untracked_push hb rfl (fun h => by cases h) id
  | buildGone _ _ => exact h.builds hl hg.clock rfl rfl fun _ _ => untracked_push_none
  | jobCreated hn =>
    refine h.jobs rfl hg.clock rfl (keeps_push ?_)
    rw [hn]
    rintro _ ⟨⟩
  | jobDeleted _ => exact h.jobs rfl hg.clock rfl (keeps_push hok)
  | @jobStatus name job status hj =>
    refine h.jobs rfl hg.clock rfl ?_
    intro key job' hj' ha _
    by_cases hnm : jobName hash key.name = name
    · subst hnm
      obtain rfl : job = job' := Option.some.inj (hj.symm.trans hj')
      exact ⟨_, pushJob_job _, ha⟩
    · exact ⟨job', (pushJob_job_of_ne hnm _).trans hj', ha⟩

theorem trackedWorkers_walk :
    Walk hash Terms.none (trackedWorkers hash).exec (onceDiscipline hash) t where
  grows := id
  logInv := OnceInv.logInv
  machine h := h.2
  confirm _ := trivial
  digest _ := trivial
  allowed hi hjust hx := by
    have hw := exec_write hx.2
    exact ⟨onceInv_write hi hjust hx.1 hw, trivial, fun _ _ => (write_logInv hi.logInv hw).2⟩

/-- Any number of reconciles at once make one Job for a Build. -/
theorem trackedWorkers_respect :
    (trackedWorkers hash).Respects (onceDiscipline hash) fun _ _ _ => True where
  starts := by
    rintro t p w ⟨r, key, rfl⟩ _
    exact safe_reconcile trackedWorkers_walk Terms.none_open
  lasts := fun _ _ _ _ _ _ => trivial
  env := by
    rintro w w' hw ⟨e, hok, he⟩
    have ho := event_occurs he
    exact ⟨onceInv_event hw hok ho, trivial, fun _ => (event_logInv hw.logInv ho).2⟩
  restart := by
    rintro w _ hw rfl
    exact ⟨hw, trivial⟩

theorem onceInv_empty : OnceInv hash World.empty :=
  ⟨logInv_empty, fun _ h => (not_mem_nil h).elim, .nil, fun _ h => (not_mem_nil h).elim⟩

section Vanished

variable {r : Reconciler} {b : BuildObject} {before : BuildStatus}

theorem simulate_updateStatus (hb : w.build b.key = some b) {b' : BuildObject}
    (hk : b'.key = b.key) (hv : b'.resourceVersion = b.resourceVersion)
    (hr : b'.status.reason ≠ some .featureDisabled) (hne : b'.status.phase ≠ before.phase) :
    (machine hash).simulate freshPick (updateStatus b' before) w = some ([], w.pushBuild b.key
      (some { b with
        status := { b'.status with observedGeneration := b'.generation }
        resourceVersion := w.clock })) := by
  have hc : ({ b'.status with observedGeneration := b'.generation } : BuildStatus) ≠ before := by
    rintro rfl
    exact hne rfl
  have hs : ¬ (({ b'.status with observedGeneration := b'.generation } : BuildStatus).reason =
      some .featureDisabled ∧ b.status.reason ≠ some .featureDisabled) := fun h => hr h.1
  simp only [updateStatus, if_neg hc, call, perform_bind, Machine.simulate, machine, answer,
    freshPick, World.updateStatus, hk, hb, hv, ne_eq, not_true_eq_false, if_false,
    if_neg hs, Option.bind_some, if_true, pure_eq]

variable {ref : String}

/-- A tracked Job that is not found is not made anew. -/
theorem simulate_ensureJob (hjr : b.status.jobRef.isSome) (hj : w.jobOf hash b.key = none)
    (hc : r.compose b.key b.spec = .ok ref)
    (hr : r.render b.key b.spec = none) :
    ∃ message, (machine hash).simulate freshPick (ensureJob hash r b) w =
      some ((failBuild b .jobMissing message, .error .vanished), w) := by
  have hcc : lagged (w.jobLogOf hash b.key) 0 = some .notFound := by
    rw [lagged_zero]
    exact congrArg (some ∘ current) hj
  have hl : current (w.jobOf hash b.key) = .notFound := by
    rw [hj]
    rfl
  refine ⟨"Job " ++ jobsNamespace ++ "/" ++ jobName hash b.key.name ++
    " was deleted before the build finished; retry by creating a new Build", ?_⟩
  simp only [ensureJob, hc, hr, lookupJob, confirmJob, call, perform_bind,
    Machine.simulate, machine, answer, freshPick, hcc, hl, Option.map_some,
    Option.bind_some, hjr, if_true, pure_eq]

/-- A tracked Build whose Job is gone ends as failed. -/
theorem simulate_runJob (hb : w.build b.key = some b) (ho : b.status.isTerminal = false)
    (hjr : b.status.jobRef.isSome) (hj : w.jobOf hash b.key = none)
    (hc : r.compose b.key b.spec = .ok ref) (hr : r.render b.key b.spec = none)
    (hbf : before.phase = b.status.phase) :
    ∃ errors w', (machine hash).simulate freshPick (runJob hash r b before) w = some (errors, w') ∧
      (w'.build b.key).map (fun b => (b.status.phase, b.status.reason)) =
        some (.failed, some .jobMissing) ∧ w'.created = w.created := by
  obtain ⟨message, he⟩ := simulate_ensureJob (w := w) hjr hj hc hr
  have hp : (failBuild b .jobMissing message).status.phase ≠ before.phase := by
    rw [hbf]
    intro heq
    simp [BuildStatus.isTerminal, ← heq, failBuild, setCompleted] at ho
  have hrs : (failBuild b .jobMissing message).status.reason ≠ some .featureDisabled := by
    simp [failBuild, setCompleted, BuildStatus.reason]
  have hu : (machine hash).simulate freshPick
      (updateStatus (failBuild b .jobMissing message) before) w = _ :=
    simulate_updateStatus hb rfl rfl hrs hp
  have hrn : (machine hash).simulate freshPick (runJob hash r b before) w =
      some ([.vanished], w.pushBuild b.key (some { b with
        status :=
          { (failBuild b .jobMissing message).status with observedGeneration := b.generation }
        resourceVersion := w.clock })) :=
    ((machine hash).simulate_bind he _).trans ((machine hash).simulate_bind hu _)
  refine ⟨_, _, hrn, ?_, rfl⟩
  rw [pushBuild_build]
  rfl

/-- With fresh reads and no failure, a reconcile of a Build whose tracked Job is gone ends
in the terminal failure for it, and no Job is created. -/
theorem simulate_vanished (hk : b.key = key) (hb : w.build key = some b)
    (hl : b.deleting = false) (ho : b.status.isTerminal = false)
    (hjr : b.status.jobRef.isSome) (hj : w.jobOf hash key = none)
    (hc : r.compose key b.spec = .ok ref) (hr : r.render key b.spec = none) :
    ∃ errors w', (machine hash).simulate freshPick (reconcile hash r key) w = some (errors, w') ∧
      (w'.build key).map (fun b => (b.status.phase, b.status.reason)) =
        some (.failed, some .jobMissing) ∧ w'.created = w.created := by
  subst hk
  have hrd : lagged (w.buildLog b.key) 0 = some (.found b) := by
    rw [lagged_zero]
    exact congrArg (some ∘ current) hb
  have hrc : (machine hash).simulate freshPick (reconcile hash r b.key) w =
      (machine hash).simulate freshPick (holdJob hash r b b.status) w := by
    simp only [reconcile, call, perform_bind, Machine.simulate, machine, answer, freshPick, hrd,
      Option.map_some, Option.bind_some, hl, Bool.false_eq_true, if_false, ho, gateJob,
      hjr, if_true]
  rw [hrc]
  by_cases hf : b.finalizer = true
  · rw [holdJob, if_pos hf]
    exact simulate_runJob hb ho hjr hj hc hr rfl
  -- the finalizer is stored first, which leaves the status as it was
  let new : BuildObject := { b with finalizer := true, resourceVersion := w.clock }
  let w1 : World := w.pushBuild b.key (some new)
  have hu : w.updateBuild { b with finalizer := true } = (some new, w1) := by
    simp [World.updateBuild, hb, new, w1]
  have hh : (machine hash).simulate freshPick (holdJob hash r b b.status) w =
      (machine hash).simulate freshPick (runJob hash r new b.status) w1 := by
    simp only [holdJob, if_neg hf, call, perform_bind, Machine.simulate, machine, answer,
      freshPick, hu, Option.bind_some]
  rw [hh]
  have hs : w1.build new.key = some new := pushBuild_build _
  have hg : w1.jobOf hash new.key = none := hj
  exact simulate_runJob hs ho hjr hg hc hr rfl

/-- In every run in which Jobs are deleted only when no live Build still needs them
untracked, and creates that go through are for a Build stored as live and untracked: no
Build gets two Jobs. And a reconcile that meets a tracked Build without its Job fails it
for good. -/
theorem build_gets_one_job {c : Config apiServer World ℕ Errors}
    (hc : (trackedWorkers hash).Steps (Config.idle World.empty) c) :
    (c.shared.created.map fun e => (e.2.key, e.2.uid)).Nodup ∧
    ∀ (r : Reconciler) (key : Key) (b : BuildObject) (ref : String),
      c.shared.build key = some b → b.deleting = false → b.status.isTerminal = false →
      b.status.jobRef.isSome → c.shared.jobOf hash key = none →
      r.compose key b.spec = .ok ref → r.render key b.spec = none →
        ∃ errors w', (machine hash).simulate freshPick (reconcile hash r key) c.shared =
            some (errors, w') ∧
          (w'.build key).map (fun b => (b.status.phase, b.status.reason)) =
            some (.failed, some .jobMissing) ∧ w'.created = c.shared.created := by
  have hinv := (System.reachable_good trackedWorkers_respect (System.good_idle onceInv_empty) hc).1.inv
  refine ⟨hinv.once, ?_⟩
  intro r key b ref hb hlive hopen hjobRef hjob hcompose hrender
  have hkey := hinv.logInv.key_eq (mem_buildLog_of_build hb)
  exact simulate_vanished hkey hb hlive hopen hjobRef hjob hcompose hrender

end Vanished

def trackedMachine : Machine apiServer World :=
  (machine sampleHash).guard fun c w _ _ => decide (TrackedCall sampleHash w c)

theorem trackedMachine_exec (c : Call) (w : World) (x : c.Reply) (w' : World)
    (h : trackedMachine.exec c w x w') : (trackedWorkers sampleHash).exec 0 c w x w' := by
  rw [trackedMachine, Machine.exec_guard, decide_eq_true_iff] at h
  exact ⟨h.2, h.1⟩

def trackedStarted : World :=
  trackedMachine.after freshPick (reconcile sampleHash sampleReconciler sampleKey) createdWorld

def trackedDeleted : World := trackedStarted.afterEvent (.deleteJob "web-1")

/-- A tracked Job is deleted: the Build fails, and no second Job is made. -/
theorem deleted_job_missed :
    (trackedDeleted.created.map fun e => (e.2.key, e.2.uid)).Nodup ∧
      trackedDeleted.created.length = 1 ∧
      ∃ errors w', (machine sampleHash).simulate freshPick
          (reconcile sampleHash sampleReconciler sampleKey) trackedDeleted = some (errors, w') ∧
        (w'.build sampleKey).map (fun b => (b.status.phase, b.status.reason)) =
          some (.failed, some .jobMissing) ∧ w'.created = trackedDeleted.created := by
  have hcreated : (trackedWorkers sampleHash).Steps (Config.idle World.empty)
      (Config.idle createdWorld) :=
    steps_createdWorld rfl trivial
  have hstarted : (trackedWorkers sampleHash).Steps (Config.idle createdWorld)
      (Config.idle trackedStarted) :=
    steps_reconcile (w := createdWorld) ⟨_, _, rfl⟩ trackedMachine_exec (by decide +kernel)
  have hgo : MayGo trackedStarted (trackedStarted.job "web-1") := by decide +kernel
  have hdeleted : (trackedWorkers sampleHash).Steps (Config.idle trackedStarted)
      (Config.idle trackedDeleted) :=
    steps_event (e := .deleteJob "web-1") rfl hgo (by decide +kernel)
  have hone := build_gets_one_job ((hcreated.trans hstarted).trans hdeleted)
  dsimp only [Config.idle] at hone
  have hb : (trackedDeleted.build sampleKey).isSome := by decide +kernel
  obtain ⟨b, hb⟩ := Option.isSome_iff_exists.mp hb
  have hfields : (trackedDeleted.build sampleKey).map
      (fun b => (b.deleting, b.status.isTerminal, b.status.jobRef.isSome)) =
        some (false, false, true) := by decide +kernel
  rw [hb, Option.map_some, Option.some.injEq, Prod.mk.injEq, Prod.mk.injEq] at hfields
  exact ⟨hone.1, by decide +kernel, hone.2 sampleReconciler sampleKey b _ hb hfields.1 hfields.2.1
    hfields.2.2 (by decide +kernel) rfl rfl⟩

def untrackedStarted : World :=
  (machine sampleHash).after lostStatusPick (reconcile sampleHash sampleReconciler sampleKey)
    createdWorld

def untrackedDeleted : World := untrackedStarted.afterEvent (.deleteJob "web-1")

def rebuilt : World :=
  (machine sampleHash).after freshPick (reconcile sampleHash sampleReconciler sampleKey)
    untrackedDeleted

/-- The next reconcile, with fresh reads, runs the same Build a second time. -/
theorem deleted_job_rebuilt :
    (workers sampleHash fun _ _ => True).Steps (Config.idle World.empty) (Config.idle rebuilt) ∧
      rebuilt.created.map (fun e => (e.2.key, e.2.uid)) = [(sampleKey, 0), (sampleKey, 0)] := by
  have hcreated : (workers sampleHash fun _ _ => True).Steps (Config.idle World.empty)
      (Config.idle createdWorld) :=
    steps_createdWorld rfl trivial
  have hstarted : (workers sampleHash fun _ _ => True).Steps (Config.idle createdWorld)
      (Config.idle untrackedStarted) :=
    steps_reconcile (t := 0) (w := createdWorld) ⟨_, _, rfl⟩ (fun _ _ _ _ h => h) (by decide +kernel)
  have hdeleted : (workers sampleHash fun _ _ => True).Steps (Config.idle untrackedStarted)
      (Config.idle untrackedDeleted) :=
    steps_event (e := .deleteJob "web-1") rfl trivial (by decide +kernel)
  have hrebuilt : (workers sampleHash fun _ _ => True).Steps (Config.idle untrackedDeleted)
      (Config.idle rebuilt) :=
    steps_reconcile (t := 0) (w := untrackedDeleted) ⟨_, _, rfl⟩ (fun _ _ _ _ h => h)
      (by decide +kernel)
  exact ⟨((hcreated.trans hstarted).trans hdeleted).trans hrebuilt, by decide +kernel⟩

end Orkano.Operator.BuildController
