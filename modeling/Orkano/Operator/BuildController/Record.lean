import Orkano.Operator.BuildController.Revision

/-!
Whether the fields of one stored status fit together. The completion time is set before the pods
are listed, so it does as long as the pods of a failed Job can be listed.
-/
namespace Orkano.Operator.BuildController

open Interleave Program

variable {hash : String → String}

def MarksSuccess (s : BuildStatus) : Prop :=
  s.completed.any Condition.status = true ↔ s.phase = .succeeded

/-- A completion time is that of a finished Build. -/
def CompletedOnce (s : BuildStatus) : Prop :=
  s.completedAt.isSome → s.phase = .succeeded ∨ s.phase = .failed

instance (s : BuildStatus) : Decidable (CompletedOnce s) :=
  inferInstanceAs (Decidable (_ → _))

structure Recorded (unlisted : Prop) (s : BuildStatus) : Prop where
  marks : MarksSuccess s
  completed : ¬ unlisted → CompletedOnce s

variable {unlisted : Prop}

theorem recorded_empty : Recorded unlisted .empty :=
  ⟨by simp [MarksSuccess, BuildStatus.empty], fun _ => by simp [CompletedOnce, BuildStatus.empty]⟩

variable {s : BuildStatus}

theorem isTerminal_eq_false : s.isTerminal = false ↔ s.phase ≠ .succeeded ∧ s.phase ≠ .failed := by
  simp [BuildStatus.isTerminal]

theorem CompletedOnce.eq_none (h : CompletedOnce s) (ho : s.isTerminal = false) :
    s.completedAt = none := by
  rw [isTerminal_eq_false] at ho
  by_contra hsome
  rcases h (Option.isSome_iff_ne_none.mpr hsome) with hp | hp
  · exact ho.1 hp
  · exact ho.2 hp

/-- A revision completes a status once, and marks its success. -/
theorem Recorded.revises {pins : String → Prop} {s' : BuildStatus} (h : Recorded unlisted s)
    (ho : s.isTerminal = false) (hr : Revises unlisted pins s s') : Recorded unlisted s' := by
  have hn : ¬ unlisted → s.completedAt = none := fun hu => (h.completed hu).eq_none ho
  cases hr with
  | same hp _ hat hc =>
    constructor
    · simpa only [MarksSuccess, hp, hc] using h.marks
    · intro hu
      simpa only [CompletedOnce, hp, hat] using h.completed hu
  | refused hp _ _ hc =>
    exact ⟨by simp [MarksSuccess, hp, hc], fun _ _ => .inr hp⟩
  | unlisted hu hp _ hc =>
    constructor
    · simpa only [MarksSuccess, hp, hc] using h.marks
    · exact fun hnt => absurd hu hnt
  | failed hp _ hc =>
    exact ⟨by simp [MarksSuccess, hp, hc], fun _ _ => .inr hp⟩
  | waiting hp _ hat hc =>
    constructor
    · rcases hp with hp | hp <;> simp [MarksSuccess, hp, hc]
    · intro hu
      simp [CompletedOnce, hat, hn hu]
  | succeeded _ hp hc =>
    exact ⟨by simp [MarksSuccess, hp, hc], fun _ _ => .inl hp⟩

/-- Every status that was ever stored is a record of its completion. -/
theorem recorded_of_steps {A : Answers} {c : Config apiServer World ℕ Errors}
    (hc : (answeredWorkers hash A).Steps (Config.idle World.empty) c) {key : Key}
    {b : BuildObject} (hb : some b ∈ c.shared.buildLog key) : Recorded A.unlisted b.status :=
  (stored_of_steps (P := fun _ _ s => Recorded A.unlisted s) (fun _ _ _ ho h hr => h.revises ho hr)
    (fun _ _ => recorded_empty) hc).holds hb

def Answers.listed : Answers := ⟨False, fun _ _ => True⟩

/-- In every run Completed is True exactly with success; and in every run in which pods
can always be listed, a completion time is stored only with a final phase. -/
theorem build_record_consistent :
    (∀ c, (workers hash fun _ _ => True).Steps (Config.idle World.empty) c →
      ∀ key b, some b ∈ c.shared.buildLog key →
        (b.status.completed.any Condition.status = true ↔ b.status.phase = .succeeded)) ∧
    ∀ c, (answeredWorkers hash .listed).Steps (Config.idle World.empty) c →
      ∀ key b, some b ∈ c.shared.buildLog key → b.status.completedAt.isSome →
        b.status.phase = .succeeded ∨ b.status.phase = .failed := by
  constructor
  · intro c hc key b hb
    rw [← answeredWorkers_any] at hc
    exact (recorded_of_steps hc hb).marks
  · intro c hc key b hb
    exact (recorded_of_steps hc hb).completed not_false

def failedStatus : JobStatus := ⟨some 1, none, 0, some ⟨"BackoffLimitExceeded", "", 2⟩, false⟩

def jobFailed : World := plainStarted.afterEvent (.setJobStatus "web-1" failedStatus)

def unlistedPick : (c : Call) → World → c.Choice
  | .listPods _, _ => none
  | c, w => freshPick c w

def unlistedWorld : World :=
  (machine sampleHash).after unlistedPick (reconcile sampleHash sampleReconciler sampleKey) jobFailed

def listingMachine : Machine apiServer World :=
  (machine sampleHash).guard fun c _ x _ => match c, x with
    | .listPods _, none => false
    | _, _ => true

theorem listingMachine_exec (c : Call) (w : World) (x : c.Reply) (w' : World)
    (h : listingMachine.exec c w x w') : (answeredWorkers sampleHash .listed).exec 0 c w x w' := by
  rw [listingMachine, Machine.exec_guard] at h
  refine ⟨?_, h.1⟩
  cases c with
  | listPods key =>
    cases x with
    | none => exact absurd h.2 (by simp)
    | some pods => trivial
  | resolveDigest ref => cases x <;> trivial
  | _ => trivial

def listedStarted : World :=
  listingMachine.after freshPick (reconcile sampleHash sampleReconciler sampleKey) createdWorld

def listedWorld : World :=
  listingMachine.after freshPick (reconcile sampleHash sampleReconciler sampleKey)
    (listedStarted.afterEvent (.setJobStatus "web-1" failedStatus))

/-- A Build whose Job failed and whose pods are listed. -/
theorem failed_build_recorded :
    (listedWorld.build sampleKey).map (fun b => (b.status.phase, b.status.completedAt)) =
        some (.failed, some 2) ∧
      ∀ b, some b ∈ listedWorld.buildLog sampleKey → b.status.completedAt.isSome →
        b.status.phase = .succeeded ∨ b.status.phase = .failed := by
  let M := answeredWorkers sampleHash .listed
  have hcreated : M.Steps (Config.idle World.empty) (Config.idle createdWorld) :=
    steps_createdWorld rfl trivial
  have hstarted : M.Steps (Config.idle createdWorld) (Config.idle listedStarted) :=
    steps_reconcile (w := createdWorld) ⟨_, _, rfl⟩ listingMachine_exec (by decide +kernel)
  have hfailed : M.Steps (Config.idle listedStarted)
      (Config.idle (listedStarted.afterEvent (.setJobStatus "web-1" failedStatus))) :=
    steps_event (e := .setJobStatus "web-1" failedStatus) rfl trivial (by decide +kernel)
  have hlisted : M.Steps
      (Config.idle (listedStarted.afterEvent (.setJobStatus "web-1" failedStatus)))
      (Config.idle listedWorld) :=
    steps_reconcile (w := listedStarted.afterEvent (.setJobStatus "web-1" failedStatus))
      ⟨_, _, rfl⟩ listingMachine_exec (by decide +kernel)
  refine ⟨by decide +kernel, fun b hb => ?_⟩
  exact build_record_consistent.2 _ (((hcreated.trans hstarted).trans hfailed).trans hlisted)
    sampleKey b hb

/-- The pods of the failed Job are not listed: a completion time is stored with a Build
that is still pending. -/
theorem completion_time_while_pending :
    (workers sampleHash fun _ _ => True).Steps (Config.idle World.empty)
        (Config.idle unlistedWorld) ∧
      (unlistedWorld.build sampleKey).map (fun b => (b.status.phase, b.status.completedAt)) =
        some (.pending, some 2) := by
  have hfailed : (workers sampleHash fun _ _ => True).Steps (Config.idle plainStarted)
      (Config.idle jobFailed) :=
    steps_event (e := .setJobStatus "web-1" failedStatus) rfl trivial (by decide +kernel)
  have hunlisted : (workers sampleHash fun _ _ => True).Steps (Config.idle jobFailed)
      (Config.idle unlistedWorld) :=
    steps_reconcile (t := 0) (w := jobFailed) ⟨_, _, rfl⟩ (fun _ _ _ _ h => h) (by decide +kernel)
  exact ⟨(steps_plainStarted.trans hfailed).trans hunlisted, by decide +kernel⟩

end Orkano.Operator.BuildController
