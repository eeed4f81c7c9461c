import Orkano.Interleave.Contract
import Orkano.Operator.BuildController.Walk

/-!
What a reconcile can make of a stored status, told apart by the branch that it took. Which branch
is possible depends on the answers alone, so the walk through the program is a contract.
-/
namespace Orkano.Operator.BuildController

open Interleave Program List

variable {hash : String → String} {w w' : World} {key : Key}

section Revises

/-- What may be known of the answers: whether pods can fail to be listed, and what a
reference resolves to. -/
structure Answers where
  unlisted : Prop
  resolves : String → String → Prop

def Answers.any : Answers := ⟨True, fun _ _ => True⟩

def Answers.fits (A : Answers) : (c : Call) → c.Reply → Prop
  | .listPods _, none => A.unlisted
  | .resolveDigest ref, .ok image => A.resolves ref image
  | _, _ => True

/-- An image that the Build's own reference resolves to. -/
def Answers.Pins (A : Answers) (r : Reconciler) (b : BuildObject) (image : String) : Prop :=
  ∃ ref, r.compose b.key b.spec = .ok ref ∧ A.resolves ref image

/-- The revisions of a status, with start time, Job reference and generation left open. -/
inductive Revises (unlisted : Prop) (pins : String → Prop) (s s' : BuildStatus) : Prop where
  | same : s'.phase = s.phase → s'.image = s.image → s'.completedAt = s.completedAt →
      s'.completed = s.completed → Revises unlisted pins s s'
  | refused {reason : Reason} {message : String} : s'.phase = .failed → s'.image = s.image →
      s'.completedAt = s.completedAt → s'.completed = some ⟨false, reason, message⟩ →
      Revises unlisted pins s s'
  | unlisted : unlisted → s'.phase = s.phase → s'.image = s.image → s'.completed = s.completed →
      Revises unlisted pins s s'
  | failed {reason : Reason} {message : String} : s'.phase = .failed → s'.image = s.image →
      s'.completed = some ⟨false, reason, message⟩ → Revises unlisted pins s s'
  | waiting {reason : Reason} {message : String} : s'.phase = .pending ∨ s'.phase = .running →
      s'.image = s.image → s'.completedAt = s.completedAt →
      s'.completed = some ⟨false, reason, message⟩ → Revises unlisted pins s s'
  | succeeded {reason : Reason} {message : String} : pins s'.image → s'.phase = .succeeded →
      s'.completed = some ⟨true, reason, message⟩ → Revises unlisted pins s s'

structure SeenIn (seen : List Job) (s s' : BuildStatus) : Prop where
  startedAt : s'.startedAt = s.startedAt ∨ ∃ job ∈ seen, s'.startedAt = job.status.startTime
  phase : s'.phase = s.phase ∨ (∃ job ∈ seen, Shows job s.phase s'.phase) ∨
    s'.phase = .failed ∧ ∃ reason ∈ refusals, s'.reason = some reason
  completedAt : s'.completedAt = s.completedAt ∨ ∃ job ∈ seen,
    (∃ cond, job.status.failed = some cond ∧ s'.completedAt = some cond.lastTransitionTime) ∨
      job.status.complete ∧ s'.completedAt = job.status.completionTime
  image : s'.image = s.image ∨ ∃ job ∈ seen, job.status.complete

structure Carries (seen : List Job) (b₀ b : BuildObject) : Prop where
  key : b.key = b₀.key
  uid : b.uid = b₀.uid
  version : b.resourceVersion = b₀.resourceVersion
  spec : b.spec = b₀.spec
  phase : b.status.phase = b₀.status.phase
  image : b.status.image = b₀.status.image
  completedAt : b.status.completedAt = b₀.status.completedAt
  completed : b.status.completed = b₀.status.completed
  startedAt : b.status.startedAt = b₀.status.startedAt ∨
    ∃ job ∈ seen, b.status.startedAt = job.status.startTime

structure Revised (A : Answers) (r : Reconciler) (seen : List Job) (b₀ b : BuildObject) : Prop where
  key : b.key = b₀.key
  version : b.resourceVersion = b₀.resourceVersion
  revises : Revises A.unlisted (A.Pins r b₀) b₀.status b.status
  seenIn : SeenIn seen b₀.status b.status

def shown : (c : Call) → c.Reply → Option Job
  | .getJob _ _, .found job | .readJob _ _, .found job | .createJob _ _, .created job => some job
  | _, _ => none

/-- Jobs are asked for under the Build's name only, and not to clean up. -/
def Call.About (b₀ : BuildObject) : Call → Prop
  | .getJob .lookup key | .readJob _ key => key = b₀.key
  | .getJob .cleanup _ => False
  | .createJob _ b => b.key = b₀.key ∧ b.uid = b₀.uid
  | _ => True

/-- Only revisions of the state that was read are written, from Jobs that were seen. -/
def revising (A : Answers) (r : Reconciler) (b₀ : BuildObject) : Contract apiServer (List Job) where
  pre
    | .updateStatus b, seen => Revised A r seen b₀ b
    | c, _ => c.About b₀
  reply := A.fits
  log c x seen := (shown c x).toList ++ seen

variable {A : Answers} {r : Reconciler} {b₀ b : BuildObject} {job : Job} {seen seen' : List Job}

theorem Carries.refl (b : BuildObject) : Carries seen b b :=
  ⟨rfl, rfl, rfl, rfl, rfl, rfl, rfl, rfl, .inl rfl⟩

theorem Carries.mono (h : Carries seen b₀ b) (hs : seen ⊆ seen') : Carries seen' b₀ b :=
  { h with startedAt := h.startedAt.imp_right fun ⟨job, hj, heq⟩ => ⟨job, hs hj, heq⟩ }

theorem Carries.setJobRef (h : Carries seen b₀ b) : Carries seen b₀ (setJobRef hash b) :=
  ⟨h.key, h.uid, h.version, h.spec, h.phase, h.image, h.completedAt, h.completed, h.startedAt⟩

/-- The start time comes from a Job that was seen. -/
theorem Carries.observeStarted (h : Carries seen b₀ b) (hj : job ∈ seen) :
    Carries seen b₀ (observeStarted b job) where
  key := h.key
  uid := h.uid
  version := h.version
  spec := h.spec
  phase := h.phase
  image := h.image
  completedAt := h.completedAt
  completed := h.completed
  startedAt := by
    cases hs : b.status.startedAt with
    | none => exact .inr ⟨job, hj, by simp [BuildController.observeStarted, hs]⟩
    | some at' =>
      have hsm : (BuildController.observeStarted b job).status.startedAt = b.status.startedAt := by
        simp [BuildController.observeStarted, hs]
      rw [hsm]
      exact h.startedAt

theorem Carries.revised (h : Carries seen b₀ b) : Revised A r seen b₀ b :=
  ⟨h.key, h.version, .same h.phase h.image h.completedAt h.completed,
    ⟨h.startedAt, .inl h.phase, .inl h.completedAt, .inl h.image⟩⟩

theorem Carries.failBuild (h : Carries seen b₀ b) {reason : Reason} (message : String)
    (hr : reason ∈ refusals) : Revised A r seen b₀ (failBuild b reason message) :=
  ⟨h.key, h.version, .refused rfl h.image h.completedAt rfl,
    ⟨h.startedAt, .inr (.inr ⟨rfl, reason, hr, rfl⟩), .inl h.completedAt, .inl h.image⟩⟩

variable {before : BuildStatus}

theorem meets_updateStatus (h : Revised A r seen b₀ b) :
    (updateStatus b before).Meets (revising A r b₀) (fun _ _ => True) seen := by
  unfold updateStatus
  dsimp only
  split
  · trivial
  simp only [call, perform_bind, meets_call]
  have hs := h.seenIn
  refine ⟨⟨h.key, h.version, ?_, ⟨hs.startedAt, hs.phase, hs.completedAt, hs.image⟩⟩,
    fun x _ => by cases x <;> trivial⟩
  -- the generation that was observed is no part of a revision
  cases h.revises with
  | same hp hi hat hc => exact .same hp hi hat hc
  | refused hp hi hat hc => exact .refused hp hi hat hc
  | unlisted hu hp hi hc => exact .unlisted hu hp hi hc
  | failed hp hi hc => exact .failed hp hi hc
  | waiting hp hi hat hc => exact .waiting hp hi hat hc
  | succeeded hpn hp hc => exact .succeeded hpn hp hc

section Observe

variable {cond : JobCondition}

theorem meets_failureReason :
    (failureReason hash b cond).Meets (revising A r b₀)
      (fun verdict seen' => seen' = seen ∧ (verdict = none → A.unlisted)) seen := by
  unfold failureReason
  split
  · simp
  simp only [call, perform_bind, meets_call]
  refine ⟨trivial, fun pods hp => ?_⟩
  cases pods with
  | none => exact ⟨rfl, fun _ => hp⟩
  | some pods => exact ⟨rfl, by simp⟩

/-- What a failed Job makes of the status is one of its revisions. -/
theorem meets_observeFailed (h : Carries seen b₀ b) (hj : job ∈ seen)
    (hc : job.status.failed = some cond) :
    (observeFailed hash b cond).Meets (revising A r b₀)
      (fun out seen' => Revised A r seen' b₀ out.1) seen := by
  refine meets_failureReason.bind fun verdict seen' hv => ?_
  obtain ⟨rfl, hu⟩ := hv
  have hat : ∃ job ∈ seen', (∃ cond', job.status.failed = some cond' ∧
      some cond.lastTransitionTime = some cond'.lastTransitionTime) ∨
      job.status.complete ∧ some cond.lastTransitionTime = job.status.completionTime :=
    ⟨job, hj, .inl ⟨cond, hc, rfl⟩⟩
  cases verdict with
  | none =>
    exact ⟨h.key, h.version, .unlisted (hu rfl) h.phase h.image h.completed,
      ⟨h.startedAt, .inl h.phase, .inr hat, .inl h.image⟩⟩
  | some v =>
    exact ⟨h.key, h.version, .failed rfl h.image rfl, ⟨h.startedAt,
      .inr (.inl ⟨job, hj, .failed (by rw [hc]; rfl)⟩), .inr hat, .inl h.image⟩⟩

/-- So is what a complete Job makes of it. -/
theorem meets_observeComplete (h : Carries seen b₀ b) (hj : job ∈ seen)
    (hc : job.status.complete = true) :
    (observeComplete r b job).Meets (revising A r b₀)
      (fun out seen' => Revised A r seen' b₀ out.1) seen := by
  unfold observeComplete
  split
  · exact h.revised
  rename_i ref hr
  simp only [call, perform_bind, meets_call]
  refine ⟨trivial, fun x hx => ?_⟩
  cases x with
  | error message =>
    exact ⟨h.key, h.version, .waiting (.inr rfl) h.image h.completedAt rfl, ⟨h.startedAt,
      .inr (.inl ⟨job, hj, .running (.inl hc)⟩), .inl h.completedAt, .inl h.image⟩⟩
  | ok image =>
    rw [h.key, h.spec] at hr
    exact ⟨h.key, h.version, .succeeded ⟨ref, hr, hx⟩ rfl rfl, ⟨h.startedAt,
      .inr (.inl ⟨job, hj, .succeeded hc⟩), .inr ⟨job, hj, .inr ⟨hc, rfl⟩⟩,
      .inr ⟨job, hj, hc⟩⟩⟩

/-- Whatever the Job is in, the status is revised after it. -/
theorem meets_observeJob (h : Carries seen b₀ b) (hj : job ∈ seen) :
    (observeJob hash r b job).Meets (revising A r b₀)
      (fun out seen' => Revised A r seen' b₀ out.1) seen := by
  have hs : Carries seen b₀ (observeStarted b job) := h.observeStarted hj
  unfold observeJob
  dsimp only
  split
  · rename_i cond hcn
    exact meets_observeFailed hs hj hcn
  split
  · rename_i hc
    exact meets_observeComplete hs hj hc
  split
  · rename_i ha
    exact ⟨hs.key, hs.version, .waiting (.inr rfl) hs.image hs.completedAt rfl, ⟨hs.startedAt,
      .inr (.inl ⟨job, hj, .running (.inr ha)⟩), .inl hs.completedAt, .inl hs.image⟩⟩
  split
  · rename_i hf
    rw [hs.phase] at hf
    exact ⟨hs.key, hs.version, .waiting (.inl rfl) hs.image hs.completedAt rfl, ⟨hs.startedAt,
      .inr (.inl ⟨job, hj, .pending hf⟩), .inl hs.completedAt, .inl hs.image⟩⟩
  · exact hs.revised

end Observe

/-- What `ensureJob` leaves: a status to be written, or a Job that was seen. -/
def Handed (A : Answers) (r : Reconciler) (b₀ : BuildObject)
    (out : BuildObject × Except ReconcileError Job) (seen : List Job) : Prop :=
  match out.2 with
  | .error _ => Revised A r seen b₀ out.1
  | .ok job => Carries seen b₀ out.1 ∧ job ∈ seen

theorem meets_ite_owned (h : Carries seen b₀ b) :
    (if ownsJob b job then (done (setJobRef hash b, .ok job) : Prog _)
      else done (refuseForeignJob hash b)).Meets (revising A r b₀) (Handed A r b₀)
        (job :: seen) := by
  have h' : Carries (job :: seen) b₀ b := h.mono (subset_cons_self _ _)
  split
  · exact ⟨h'.setJobRef, mem_cons_self⟩
  · exact h'.failBuild _ (by decide)

theorem meets_confirmJob (h : Carries seen b₀ b) :
    (confirmJob hash b).Meets (revising A r b₀) (Handed A r b₀) seen := by
  simp only [confirmJob, call, perform_bind, meets_call]
  refine ⟨h.key, fun x _ => ?_⟩
  cases x with
  | found job => exact ⟨h.mono (subset_cons_self _ _), mem_cons_self⟩
  | notFound => exact h.failBuild _ (by decide)
  | error => exact h.revised

theorem meets_startJob (h : Carries seen b₀ b) :
    (startJob hash r b).Meets (revising A r b₀) (Handed A r b₀) seen := by
  simp only [startJob, call, perform_bind, meets_call]
  refine ⟨⟨h.key, h.uid⟩, fun x _ => ?_⟩
  cases x with
  | created job => exact ⟨(h.mono (subset_cons_self _ _)).setJobRef, mem_cons_self⟩
  | error => exact h.revised
  | alreadyExists =>
    refine ⟨h.key, fun y _ => ?_⟩
    cases y with
    | found job => exact meets_ite_owned h
    | notFound | error => exact h.revised

theorem meets_lookupJob (h : Carries seen b₀ b) :
    (lookupJob hash r b).Meets (revising A r b₀) (Handed A r b₀) seen := by
  simp only [lookupJob, call, perform_bind, meets_call]
  refine ⟨h.key, fun x _ => ?_⟩
  cases x with
  | found job => exact meets_ite_owned h
  | error => exact h.revised
  | notFound =>
    dsimp only
    split
    · exact meets_confirmJob h
    · exact meets_startJob h

theorem meets_ensureJob (h : Carries seen b₀ b) :
    (ensureJob hash r b).Meets (revising A r b₀) (Handed A r b₀) seen := by
  unfold ensureJob
  split
  · exact h.failBuild _ (by decide)
  split
  · exact h.revised
  · exact meets_lookupJob h

theorem meets_runJob (h : Carries seen b₀ b) :
    (runJob hash r b before).Meets (revising A r b₀) (fun _ _ => True) seen := by
  refine (meets_ensureJob h).bind fun out seen' ho => ?_
  obtain ⟨b', result⟩ := out
  cases result with
  | error e => exact (meets_updateStatus ho).bind fun _ _ _ => trivial
  | ok job =>
    refine (meets_observeJob ho.1 ho.2).bind fun out' seen'' ho' => ?_
    exact (meets_updateStatus ho').bind fun _ _ _ => trivial

/-- A closed gate keeps the state that was read, but for the reference to a Job that was
already started. -/
theorem meets_adoptStartedJob (h : Carries seen b₀ b) :
    (adoptStartedJob hash b).Meets (revising A r b₀) (fun out seen' => Carries seen' b₀ b ∧
      ∀ started, out = some (some started) → Carries seen' b₀ started) seen := by
  simp only [adoptStartedJob, call, perform_bind, meets_call]
  refine ⟨h.key, fun x _ => ?_⟩
  cases x with
  | error | notFound => exact ⟨h, by simp⟩
  | found job =>
    have h' : Carries (job :: seen) b₀ b := h.mono (subset_cons_self _ _)
    dsimp only
    split
    · refine ⟨h', ?_⟩
      rintro started ⟨⟩
      exact h'.setJobRef
    · exact ⟨h', by simp⟩

def Call.KeepsStatus : Call → Prop
  | .updateStatus _ => False
  | _ => True

theorem only_finalize : (finalize b).Only Call.KeepsStatus := by
  have hd : (dropFinalizer b).Only Call.KeepsStatus := by
    simp only [dropFinalizer, call, perform_bind, only_call]
    refine ⟨trivial, fun x => ?_⟩
    cases x <;> trivial
  unfold finalize
  split
  · trivial
  simp only [call, perform_bind, only_call]
  refine ⟨trivial, fun x => ?_⟩
  cases x with
  | error => trivial
  | notFound => exact hd
  | found job =>
    dsimp only
    split
    · refine ⟨trivial, fun y => ?_⟩
      cases y
      · trivial
      · exact hd
    · exact hd

end Revises

section Walk

variable {S τ : Type} {view : S → World} {marked : BuildObject → Job → S → Prop}
variable {exec : τ → (c : apiServer.Call) → S → apiServer.Reply c → S → Prop}
variable {D : Discipline S τ} {t : τ} {A : Answers} {r : Reconciler} {b₀ b : BuildObject} {s : S}

/-- A status write revises a live, unfinished state of the Build, from marked Jobs. -/
def Sound (A : Answers) (r : Reconciler) (view : S → World) (marked : BuildObject → Job → S → Prop) :
    Call → S → Prop
  | .updateStatus b, s => ∃ b₀ seen, Base (view s) b.key b₀ ∧ Revised A r seen b₀ b ∧
      ∀ job ∈ seen, marked b₀ job s
  | _, _ => True

theorem sound_of_keepsStatus {c : Call} (hc : c.KeepsStatus) : Sound A r view marked c s := by
  cases c with
  | updateStatus b => exact hc.elim
  | _ => trivial

/-- A discipline that sound calls keep. The state may hold more than the world; `marked`
is a lasting fact about the Jobs that a reconcile has seen. -/
structure RevisionWalk (hash : String → String) (A : Answers) (r : Reconciler) (view : S → World)
    (marked : BuildObject → Job → S → Prop)
    (exec : τ → (c : apiServer.Call) → S → apiServer.Reply c → S → Prop)
    (D : Discipline S τ) (t : τ) : Prop where
  grows : ∀ {s s'}, D.rely t s s' → Grows (view s) (view s')
  logInv : ∀ {s}, D.inv s → LogInv (view s)
  machine : ∀ {c s x s'}, exec t c s x s' → (machine hash).exec c (view s) x (view s')
  fits : ∀ {c s x s'}, exec t c s x s' → A.fits c x
  marks : ∀ {b₀ c s x s' job}, D.inv s → Base (view s) b₀.key b₀ → c.About b₀ →
    exec t c s x s' → shown c x = some job → marked b₀ job s'
  kept : ∀ {b₀ job c s x s'}, D.inv s → marked b₀ job s → exec t c s x s' → marked b₀ job s'
  lasts : ∀ {b₀ job s s'}, marked b₀ job s → D.rely t s s' → marked b₀ job s'
  allowed : ∀ {c s x s'}, D.inv s → Sound A r view marked c s → exec t c s x s' → Allowed D t s s'

structure Holds (view : S → World) (marked : BuildObject → Job → S → Prop) (b₀ : BuildObject)
    (seen : List Job) (s : S) : Prop where
  base : Base (view s) b₀.key b₀
  seen : ∀ job ∈ seen, marked b₀ job s

theorem Holds.of_base (h : Base (view s) b₀.key b₀) : Holds view marked b₀ [] s := ⟨h, by simp⟩

variable (hW : RevisionWalk hash A r view marked exec D t)

include hW

variable {seen : List Job}

theorem RevisionWalk.holds_exec {c : Call} {x : c.Reply} {s' : S} (hi : D.inv s)
    (hh : Holds view marked b₀ seen s) (hx : exec t c s x s')
    (ha : ∀ job, shown c x = some job → c.About b₀) :
    Holds view marked b₀ ((shown c x).toList ++ seen) s' := by
  refine ⟨hh.base.grows (write_logInv (hW.logInv hi) (exec_write (hW.machine hx))).2, fun job hjob
    => ?_⟩
  rcases mem_append.mp hjob with hn | hold
  · have hs : shown c x = some job := Option.mem_toList.mp hn
    exact hW.marks hi hh.base (ha job hs) hx hs
  · exact hW.kept hi (hh.seen job hold) hx

/-- What meets the contract is safe as long as the state that was read is in the log. -/
theorem RevisionWalk.safe {α : Type} {post : α → List Job → Prop} {p : Prog α}
    (hh : Holds view marked b₀ seen s) (hp : p.Meets (revising A r b₀) post seen) :
    Safe exec D t (fun a s' => ∃ seen', post a seen' ∧ Holds view marked b₀ seen' s') p s := by
  refine safe_of_meets ?_ ?_ hp hh
  · intro c seen s x s' hpr hi hh hx
    have hs : Sound A r view marked c s := by
      cases c with
      | updateStatus b => exact ⟨b₀, seen, hpr.key.symm ▸ hh.base, hpr, hh.seen⟩
      | _ => trivial
    have ha : ∀ job, shown c x = some job → c.About b₀ := by
      intro job hsh
      cases c with
      | updateStatus b => cases hsh
      | _ => exact hpr
    exact ⟨hW.allowed hi hs hx, hW.holds_exec hi hh hx ha, hW.fits hx⟩
  · intro seen s s' hh hr
    exact ⟨hh.base.grows (hW.grows hr), fun job hj => hW.lasts (hh.seen job hj) hr⟩

variable {before : BuildStatus}

theorem RevisionWalk.safe_runJob (hh : Holds view marked b₀ seen s) (h : Carries seen b₀ b) :
    Safe exec D t (fun _ _ => True) (runJob hash r b before) s :=
  (hW.safe hh (meets_runJob h)).mono fun _ _ _ => trivial

theorem RevisionWalk.safe_holdJob (hh : Holds view marked b₀ seen s) (h : Carries seen b₀ b) :
    Safe exec D t (fun _ _ => True) (holdJob hash r b before) s := by
  unfold holdJob
  split
  · exact hW.safe_runJob hh h
  simp only [call, perform_bind]
  intro s1 hr hi x s2 hx
  refine ⟨hW.allowed (c := .updateBuild { b with finalizer := true }) hi trivial hx, ?_⟩
  cases x with
  | none => trivial
  | some new =>
    -- the update brings back the state that is stored, which is the one that was read
    have hb : Base (view s1) b.key b₀ := h.key.symm ▸ hh.base.grows (hW.grows hr)
    obtain ⟨hp, -⟩ := prepared_updated (c := { b with finalizer := true }) (hW.logInv hi)
      hb h.version.symm rfl (hW.machine hx)
    exact hW.safe_runJob (.of_base (hp.key_eq.symm ▸ hp.base)) (.refl new)

/-- The whole reconcile, behind the gate, keeps the discipline. -/
theorem RevisionWalk.safe_gateJob (hb : Base (view s) b.key b) :
    Safe exec D t (fun _ _ => True) (gateJob hash r b) s := by
  unfold gateJob
  split
  · exact hW.safe_holdJob (.of_base hb) (.refl b)
  split
  · exact hW.safe_holdJob (.of_base hb) (.refl b)
  apply Safe.bind
  refine (hW.safe (.of_base hb) (meets_adoptStartedJob (.refl b))).mono ?_
  rintro out s' ⟨seen, ⟨hc, ho⟩, hh⟩
  obtain _ | _ | started := out
  · trivial
  · exact (hW.safe hh (meets_updateStatus (hc.failBuild _ (by decide)))).mono
      fun _ _ _ => trivial
  · exact hW.safe_holdJob hh (ho started rfl)

theorem RevisionWalk.safe_finalize : Safe exec D t (fun _ _ => True) (finalize b) s :=
  safe_of_only (R := fun _ => True)
    (fun _ _ _ _ hc hi _ hx => hW.allowed hi (sound_of_keepsStatus hc) hx)
    (fun _ _ _ _ => trivial) (fun _ _ _ _ => trivial) only_finalize trivial

/-- A reconcile is safe under a discipline that sound calls keep. -/
theorem RevisionWalk.safe_reconcile : Safe exec D t (fun _ _ => True) (reconcile hash r key) s := by
  simp only [reconcile, call, perform_bind]
  intro s1 hr hi x s2 hx
  refine ⟨hW.allowed (c := .getBuild key) hi trivial hx, ?_⟩
  cases x with
  | error | notFound => trivial
  | found b =>
    obtain ⟨hv, hm⟩ := exec_getBuild (hW.machine hx)
    have hk := (hW.logInv hi).key_eq hm
    dsimp only
    split
    · exact hW.safe_finalize
    rename_i hl
    split
    · trivial
    rename_i ho
    rw [← hv, ← hk] at hm
    exact hW.safe_gateJob ⟨hm, by simpa using hl, by simpa using ho⟩

end Walk

section Stored

variable {A : Answers} {r : Reconciler} {P : Key → BuildSpec → BuildStatus → Prop}

/-- Every state of every Build satisfies `P`. -/
structure Stored (P : Key → BuildSpec → BuildStatus → Prop) (w : World) : Prop where
  logInv : LogInv w
  holds : ∀ {key b}, some b ∈ w.buildLog key → P b.key b.spec b.status

def unmarked (_ : BuildObject) (_ : Job) (_ : World) : Prop := True

/-- A property of statuses that every revision keeps. -/
def Kept (A : Answers) (r : Reconciler) (P : Key → BuildSpec → BuildStatus → Prop) : Prop :=
  ∀ {b₀ : BuildObject} {s : BuildStatus}, b₀.status.isTerminal = false →
    P b₀.key b₀.spec b₀.status → Revises A.unlisted (A.Pins r b₀) b₀.status s →
    P b₀.key b₀.spec s

theorem stored_empty : Stored P World.empty :=
  ⟨logInv_empty, fun h => (not_mem_nil h).elim⟩

theorem Stored.revised {b cur : BuildObject} (h : Stored P w) (hP : Kept A r P)
    (hs : Sound A r id unmarked (.updateStatus b) w) (hc : w.build b.key = some cur)
    (hv : cur.resourceVersion = b.resourceVersion) : P cur.key cur.spec b.status := by
  obtain ⟨b₀, _, hb, hr, _⟩ := hs
  obtain rfl := h.logInv.base_eq hc hb.mem (hv.trans hr.version)
  exact hP hb.unfinished (h.holds hb.mem) hr.revises

theorem stored_write {c : Call} (h : Stored P w) (hP : Kept A r P)
    (hs : Sound A r id unmarked c w) (hw : Write hash w c w') : Stored P w' := by
  refine ⟨(write_logInv h.logInv hw).1, fun hb => ?_⟩
  rcases (write_adds hw).mem hb with hold | hn
  · exact h.holds hold
  cases hn with
  | finalizer hc => exact (h.holds (mem_buildLog_of_build hc) :)
  | status hc hv => exact (h.revised hP hs hc hv :)

theorem stored_event {e : Event} (h : Stored P w)
    (hem : ∀ key spec timeout, e = .createBuild key spec timeout → P key spec .empty)
    (he : Occurs w e w') : Stored P w' := by
  refine ⟨(event_logInv h.logInv he).1, fun hb => ?_⟩
  rcases (event_adds he).mem hb with hold | hn
  · exact h.holds hold
  cases hn with
  | created => exact hem _ _ _ rfl
  | marked hc => exact (h.holds (mem_buildLog_of_build hc) :)

/-- The discipline of reconciles that only revise. -/
def storedDiscipline (P : Key → BuildSpec → BuildStatus → Prop) : Discipline World ℕ where
  inv := Stored P
  evolves _ _ := True
  rely _ := Grows
  evolves_refl _ := trivial
  evolves_trans := fun _ _ => trivial
  rely_refl _ := Grows.refl
  rely_trans _ := fun h₁ h₂ => h₁.trans h₂

/-- The workers whose calls are answered as `A` says. -/
def answeredWorkers (hash : String → String) (A : Answers) : System apiServer World ℕ Errors :=
  (workers hash fun _ _ => True).restrict fun _ c _ x => A.fits c x

theorem fits_any : ∀ (c : Call) (x : c.Reply), Answers.any.fits c x
  | .listPods _, none | .listPods _, some _ | .resolveDigest _, .ok _ | .resolveDigest _, .error _
  | .getBuild _, _ | .updateBuild _, _ | .updateStatus _, _ | .getJob _ _, _ | .readJob _ _, _
  | .createJob _ _, _ | .deleteJob _, _ => trivial

theorem answeredWorkers_any : answeredWorkers hash .any = workers hash fun _ _ => True := by
  simp [answeredWorkers, System.restrict, workers, fits_any]

theorem answeredWorkers_walk {t : ℕ} (hP : Kept A r P) :
    RevisionWalk hash A r id unmarked (answeredWorkers hash A).exec (storedDiscipline P) t where
  grows := id
  logInv := Stored.logInv
  machine h := h.2
  fits h := h.1
  marks _ _ _ _ _ := trivial
  kept _ _ _ := trivial
  lasts _ _ := trivial
  allowed hi hsound hx := by
    have hw := exec_write hx.2
    exact ⟨stored_write hi hP hsound hw, trivial, fun _ _ => (write_logInv hi.logInv hw).2⟩

/-- What every revision keeps holds of every stored status, in every run. -/
theorem stored_of_steps (hP : ∀ r, Kept A r P) (hem : ∀ key spec, P key spec .empty)
    {c : Config apiServer World ℕ Errors}
    (hc : (answeredWorkers hash A).Steps (Config.idle World.empty) c) : Stored P c.shared := by
  have hr : (answeredWorkers hash A).Respects (storedDiscipline P) fun _ _ _ => True :=
    { starts := by
        rintro t p w ⟨r, key, rfl⟩ _
        exact (answeredWorkers_walk (hP r)).safe_reconcile
      lasts := fun _ _ _ _ _ _ => trivial
      env := by
        rintro w w' hw ⟨e, _, he⟩
        have ho := event_occurs he
        exact ⟨stored_event hw (fun key spec _ _ => hem key spec) ho, trivial,
          fun _ => (event_logInv hw.logInv ho).2⟩
      restart := by
        rintro w _ hw rfl
        exact ⟨hw, trivial⟩ }
  exact (System.reachable_good hr (System.good_idle stored_empty) hc).1.inv

end Stored

end Orkano.Operator.BuildController
