import Orkano.Operator.BuildController.Walk

/-!
Whether a Job outlives its Build. The clean-up believes the cache when it shows no Job of the
Build, and a reconcile that works on an old state of the Build may still create one.
-/
namespace Orkano.Operator.BuildController

open Interleave Program

variable {hash : String → String} {w w' : World} {key : Key} {t : ℕ}

variable (hash) in
/-- While the state with this version is the stored one, the Build has no Job. -/
def Settled (w : World) (key : Key) (version : ℕ) : Prop :=
  ∀ cur, w.build key = some cur → cur.resourceVersion = version → w.hasOwnJob hash key = false

variable (hash) in
/-- Annotated Jobs are where they belong, and a Build with a Job is held by its finalizer. -/
structure HeldInv (w : World) : Prop where
  logInv : LogInv w
  placed : ∀ {name job key}, w.job name = some job → job.annotations = some key →
    name = jobName hash key.name
  held : ∀ {key}, w.hasOwnJob hash key = true → ∃ b, w.build key = some b ∧ b.finalizer = true

variable (hash) in
/-- A deleted Build that is settled stays settled. -/
def StaysSettled (w w' : World) : Prop :=
  ∀ {key b}, some b ∈ w.buildLog key → b.deleting = true → Settled hash w key b.resourceVersion →
    Settled hash w' key b.resourceVersion

variable (hash) in
def heldDiscipline : Discipline World ℕ where
  inv := HeldInv hash
  evolves _ _ := True
  rely _ w w' := Grows w w' ∧ StaysSettled hash w w'
  evolves_refl _ := trivial
  evolves_trans := fun _ _ => trivial
  rely_refl _ w := ⟨Grows.refl w, fun _ _ h => h⟩
  rely_trans _ := fun h₁ h₂ => ⟨h₁.1.trans h₂.1, fun hb hdeleting h =>
    h₂.2 (h₁.1.builds hb) hdeleting (h₁.2 hb hdeleting h)⟩

/-- The stored Build is live and has the finalizer. -/
def Held (w : World) (key : Key) : Bool :=
  (w.build key).any fun b => b.finalizer && !b.deleting

variable (hash) in
/-- A clean-up sees no Job of the Build only if there is none, and a create that goes
through finds the Build held. -/
def HeldAnswer (w : World) : (c : Call) → c.Reply → Prop
  | .getJob .cleanup key, .found job => job.annotations ≠ some key → w.hasOwnJob hash key = false
  | .getJob .cleanup key, .notFound => w.hasOwnJob hash key = false
  | .createJob _ b, _ => w.jobOf hash b.key = none → Held w b.key = true
  | _, _ => True

instance (w : World) : (c : Call) → (x : c.Reply) → Decidable (HeldAnswer hash w c x)
  | .getJob .cleanup key, .found job => inferInstanceAs (Decidable
      (job.annotations ≠ some key → w.hasOwnJob hash key = false))
  | .getJob .cleanup key, .notFound => inferInstanceAs (Decidable (w.hasOwnJob hash key = false))
  | .createJob _ b, _ =>
    inferInstanceAs (Decidable (w.jobOf hash b.key = none → Held w b.key = true))
  | .getJob .cleanup _, .error | .getJob .lookup _, _ | .getBuild _, _ | .updateBuild _, _
  | .updateStatus _, _ | .readJob _ _, _ | .deleteJob _, _ | .listPods _, _
  | .resolveDigest _, _ => inferInstanceAs (Decidable True)

def heldWorkers (hash : String → String) : System apiServer World ℕ Errors :=
  (workers hash fun _ e => e.Unannotated).restrict fun _ c w x => HeldAnswer hash w c x

variable (hash) in
def heldTerms : Terms :=
  { Terms.none with release := fun b w => Settled hash w b.key b.resourceVersion }

theorem held_iff :
    Held w key = true ↔ ∃ b, w.build key = some b ∧ b.finalizer = true ∧ b.deleting = false := by
  simp [Held, Option.any_eq_true]

theorem settled_of_hasOwnJob (h : w.hasOwnJob hash key = false) (version : ℕ) :
    Settled hash w key version := fun _ _ _ => h

/-- What settles a deleted Build: a new Job of its own is added only while the stored
state is live, and new states have new versions. -/
theorem staysSettled_of (hlg : LogInv w)
    (hbl : ∀ {key cur}, w'.build key = some cur →
      w.build key = some cur ∨ cur.resourceVersion = w.clock)
    (ho : ∀ {key}, w'.hasOwnJob hash key = true → w.hasOwnJob hash key = true ∨
      ∃ cur, w.build key = some cur ∧ cur.deleting = false) : StaysSettled hash w w' := by
  intro key b hb hd hs cur' hc' hv
  rcases hbl hc' with hold | hn
  · by_contra hownJob
    rw [Bool.not_eq_false] at hownJob
    rcases ho hownJob with hbf | ⟨cur, hc, hl⟩
    · rw [hs cur' hold hv] at hbf
      cases hbf
    obtain rfl : cur' = cur := Option.some.inj (hold.symm.trans hc)
    obtain rfl := hlg.base_eq hc hb hv
    rw [hd] at hl
    cases hl
  · have hlt := hlg.version_lt hb
    omega

theorem HeldInv.builds (h : HeldInv hash w) (hl : LogInv w') (hj : w'.jobLog = w.jobLog)
    (hh : ∀ {key}, w.hasOwnJob hash key = true → ∃ b, w'.build key = some b ∧ b.finalizer = true) :
    HeldInv hash w' where
  logInv := hl
  placed hjob := h.placed (by simpa only [World.job, hj] using hjob)
  held hown := hh (by rwa [hasOwnJob_of_jobLog hj] at hown)

theorem held_pushBuild (h : HeldInv hash w) {key' : Key} {o : Option BuildObject}
    (ho : w.hasOwnJob hash key' = true → ∃ b, o = some b ∧ b.finalizer = true)
    (how : w.hasOwnJob hash key = true) :
    ∃ b, (w.pushBuild key' o).build key = some b ∧ b.finalizer = true := by
  by_cases hk : key = key'
  · subst hk
    rw [pushBuild_build]
    exact ho how
  · rw [pushBuild_build_of_ne hk]
    exact h.held how

theorem HeldInv.finalizer (h : HeldInv hash w) {cur : BuildObject} (hc : w.build key = some cur)
    (ho : w.hasOwnJob hash key = true) : cur.finalizer = true := by
  obtain ⟨b, hb, hf⟩ := h.held ho
  obtain rfl : b = cur := Option.some.inj (hb.symm.trans hc)
  exact hf

theorem HeldInv.jobs (h : HeldInv hash w) (hbl : w'.buildLog = w.buildLog)
    (hc : w.clock ≤ w'.clock)
    (hp : ∀ {name job key}, w'.job name = some job → job.annotations = some key →
      name = jobName hash key.name)
    (ho : ∀ {key}, w'.hasOwnJob hash key = true → w.hasOwnJob hash key = true ∨
      Held w key = true) : HeldInv hash w' where
  logInv := h.logInv.of_logs hbl hc
  placed := hp
  held {key} hownJob := by
    have hs : w'.build key = w.build key := by simp only [World.build, hbl]
    rw [hs]
    rcases ho hownJob with hbf | hh
    · exact h.held hbf
    · obtain ⟨b, hb, hf, _⟩ := held_iff.mp hh
      exact ⟨b, hb, hf⟩

theorem HeldInv.placed_pushJob (h : HeldInv hash w) {name : String} {o : Option Job}
    (ho : ∀ job key, o = some job → job.annotations = some key → name = jobName hash key.name)
    {name' : String} {job : Job} (hj : (w.pushJob name o).job name' = some job)
    (ha : job.annotations = some key) : name' = jobName hash key.name := by
  by_cases hn : name' = name
  · subst hn
    rw [pushJob_job] at hj
    exact ho job key hj ha
  · rw [pushJob_job_of_ne hn] at hj
    exact h.placed hj ha

/-- No write of a reconcile lets go of a Build that has a Job. -/
theorem heldInv_write {c : Call} {x : c.Reply} (h : HeldInv hash w)
    (hjs : Justified hash (heldTerms hash) c w) (ha : HeldAnswer hash w c x)
    (hw : Write hash w c w') : HeldInv hash w' := by
  obtain ⟨hl, hg⟩ := write_logInv h.logInv hw
  have ho : ∀ {key}, w'.hasOwnJob hash key = true → w.hasOwnJob hash key = true ∨
      Held w key = true := by
    intro key hnw
    refine (hasOwnJob_write hw hnw).imp_right ?_
    rintro ⟨features, b, rfl, rfl, hn⟩
    exact ha hn
  cases hw with
  | same => exact h
  | @finalizer b cur hc hv hst =>
    obtain ⟨b0, hb0, hb, hf, _⟩ := hjs
    obtain rfl := h.logInv.base_eq hc hb0 (hv.trans hb.symm)
    refine h.builds hl rfl fun ho => held_pushBuild h (fun _ => ⟨_, rfl, ?_⟩) ho
    -- a finalizer that is dropped from a live Build would not be justified
    cases hd : cur.deleting with
    | false => simp [hf, hd]
    | true => simp [hf, hd] at hst
  | @gone b cur hc hv _ hf =>
    obtain ⟨_, _, _, _, hr⟩ := hjs
    have hn : w.hasOwnJob hash b.key = false := hr hf cur hc hv
    refine h.builds hl rfl fun ho => held_pushBuild h ?_ ho
    intro hs
    rw [hn] at hs
    cases hs
  | status hc _ _ | disable hc _ _ _ =>
    refine h.builds hl rfl fun ho => held_pushBuild h ?_ ho
    intro hs
    have hf := h.finalizer hc hs
    exact ⟨_, rfl, hf⟩
  | created _ =>
    refine h.jobs rfl hg.clock (fun hj => h.placed_pushJob ?_ hj) ho
    rintro _ _ ⟨⟩ ⟨⟩
    rfl
  | deleted _ =>
    refine h.jobs rfl hg.clock (fun hj => h.placed_pushJob ?_ hj) ho
    rintro _ _ ⟨⟩

/-- Nor does what others do. -/
theorem heldInv_event {e : Event} (h : HeldInv hash w) (hok : e.Unannotated) (he : Occurs w e w') :
    HeldInv hash w' := by
  obtain ⟨hl, hg⟩ := event_logInv h.logInv he
  have ho : ∀ {key}, w'.hasOwnJob hash key = true → w.hasOwnJob hash key = true ∨
      Held w key = true := fun hnw => .inl (hasOwnJob_event hok he hnw)
  cases he with
  | buildCreated hn =>
    refine h.builds hl rfl fun ho => held_pushBuild h ?_ ho
    intro hs
    obtain ⟨b, hb, _⟩ := h.held hs
    rw [hn] at hb
    cases hb
  | buildMarked _ hf =>
    exact h.builds hl rfl fun ho => held_pushBuild h (fun _ => ⟨_, rfl, hf⟩) ho
  | buildGone hb hf =>
    refine h.builds hl rfl fun ho => held_pushBuild h ?_ ho
    intro hs
    rw [h.finalizer hb hs] at hf
    cases hf
  | jobCreated _ =>
    refine h.jobs rfl hg.clock (fun hj => h.placed_pushJob ?_ hj) ho
    rintro _ _ ⟨⟩ ha
    rw [Event.Unannotated] at hok
    rw [hok] at ha
    cases ha
  | jobDeleted _ =>
    refine h.jobs rfl hg.clock (fun hj => h.placed_pushJob ?_ hj) ho
    rintro _ _ ⟨⟩
  | jobStatus hj =>
    refine h.jobs rfl hg.clock (fun hj' => h.placed_pushJob ?_ hj') ho
    rintro _ _ ⟨⟩ ha
    exact h.placed hj ha

theorem rely_write {c : Call} {x : c.Reply} (h : HeldInv hash w) (ha : HeldAnswer hash w c x)
    (hw : Write hash w c w') : (heldDiscipline hash).rely t w w' := by
  refine ⟨(write_logInv h.logInv hw).2, staysSettled_of h.logInv (build_write h.logInv hw) ?_⟩
  intro key hnw
  refine (hasOwnJob_write hw hnw).imp_right ?_
  rintro ⟨features, b, rfl, rfl, hn⟩
  obtain ⟨cur, hc, _, hl⟩ := held_iff.mp (ha hn)
  exact ⟨cur, hc, hl⟩

theorem rely_event {e : Event} (h : HeldInv hash w) (hok : e.Unannotated) (he : Occurs w e w') :
    (heldDiscipline hash).rely t w w' :=
  ⟨(event_logInv h.logInv he).2, staysSettled_of h.logInv (build_event h.logInv he)
    fun hn => .inl (hasOwnJob_event hok he hn)⟩

theorem heldWorkers_walk :
    Walk hash (heldTerms hash) (heldWorkers hash).exec (heldDiscipline hash) t where
  grows h := h.1
  logInv := HeldInv.logInv
  machine h := h.2
  confirm _ := trivial
  digest _ := trivial
  allowed hi hjust hx := by
    have hw := exec_write hx.2
    exact ⟨heldInv_write hi hjust hx.1 hw, trivial, fun _ _ => rely_write hi hx.1 hw⟩

section CleanUp

variable {b : BuildObject}

theorem safe_dropFinalizer_settled (hm : some b ∈ w.buildLog key) (hk : b.key = key)
    (hd : b.deleting = true) (hs : Settled hash w key b.resourceVersion) :
    Safe (heldWorkers hash).exec (heldDiscipline hash) t (fun _ _ => True) (dropFinalizer b) w := by
  apply safe_dropFinalizer heldWorkers_walk hm hk hd
  intro w' hr
  subst hk
  have hst : Settled hash w' b.key b.resourceVersion := hr.2 hm hd hs
  exact hst

/-- The finalizer goes only after the Job. -/
theorem safe_finalize_settled (hm : some b ∈ w.buildLog key) (hk : b.key = key)
    (hd : b.deleting = true) :
    Safe (heldWorkers hash).exec (heldDiscipline hash) t (fun _ _ => True) (finalize b) w := by
  subst hk
  unfold finalize
  split
  · trivial
  simp only [call, perform_bind]
  intro w1 hr hi x w2 hx
  have hm1 := hr.1.builds hm
  refine ⟨heldWorkers_walk.allowed (c := .getJob .cleanup b.key) hi trivial hx, ?_⟩
  cases x with
  | error => trivial
  | notFound =>
    obtain rfl : w1 = w2 := by
      cases exec_write hx.2
      rfl
    exact safe_dropFinalizer_settled hm1 rfl hd (settled_of_hasOwnJob hx.1 _)
  | found job =>
    obtain ⟨rfl, hjb⟩ := exec_getJob hx.2
    dsimp only
    split
    · rename_i ho
      intro w3 hr3 hi3 ok w4 hok
      have how : Own hash w2 b.key job := ⟨hjb, by simpa [ownsJob] using ho⟩
      have hj : Justified hash (heldTerms hash) (.deleteJob b.key) w3 :=
        ⟨b, job, hr3.1.builds hm1, hd, how.grows hr3.1⟩
      refine ⟨heldWorkers_walk.allowed hi3 hj hok, ?_⟩
      cases ok with
      | false => trivial
      | true =>
        have hgn : w4.hasOwnJob hash b.key = false := by
          simp [World.hasOwnJob, exec_deleteJob hok.2]
        have hg := (write_logInv hi3.logInv (exec_write hok.2)).2
        exact safe_dropFinalizer_settled (hg.builds (hr3.1.builds hm1)) rfl hd
          (settled_of_hasOwnJob hgn _)
    · rename_i hf
      have hn : w2.hasOwnJob hash b.key = false := hx.1 (by simpa [ownsJob] using hf)
      exact safe_dropFinalizer_settled hm1 rfl hd (settled_of_hasOwnJob hn _)

/-- Any number of reconciles at once hold a Build as long as it has a Job. -/
theorem heldWorkers_respect :
    (heldWorkers hash).Respects (heldDiscipline hash) fun _ _ _ => True where
  starts := by
    rintro t p w ⟨r, key, rfl⟩ _
    exact safe_reconcile_of heldWorkers_walk safe_finalize_settled fun _ =>
      safe_gateJob heldWorkers_walk ⟨fun _ _ => trivial, fun _ _ => trivial⟩
  lasts := fun _ _ _ _ _ _ => trivial
  env := by
    rintro w w' hw ⟨e, hok, he⟩
    have ho := event_occurs he
    exact ⟨heldInv_event hw hok ho, trivial, fun _ => rely_event hw hok ho⟩
  restart := by
    rintro w _ hw rfl
    exact ⟨hw, trivial⟩

theorem heldInv_empty : HeldInv hash World.empty where
  logInv := logInv_empty
  placed := nofun
  held := nofun

/-- In every run in which clean-ups see the Job that is there, and creates that go through
find the Build live and with the finalizer: every annotated Job has its Build. -/
theorem no_orphan_job {c : Config apiServer World ℕ Errors}
    (hc : (heldWorkers hash).Steps (Config.idle World.empty) c) {key : Key}
    (hgone : c.shared.build key = none) (name : String) :
    ∀ job ∈ c.shared.job name, job.annotations ≠ some key := by
  intro job hjob hannotations
  have hinv := (System.reachable_good heldWorkers_respect (System.good_idle heldInv_empty) hc).1.inv
  have hname := hinv.placed hjob hannotations
  subst hname
  obtain ⟨b, hb, _⟩ := hinv.held (hasOwnJob_iff.mpr ⟨job, hjob, hannotations⟩)
  rw [hgone] at hb
  cases hb

end CleanUp

def heldMachine : Machine apiServer World :=
  (machine sampleHash).guard fun c w x _ => decide (HeldAnswer sampleHash w c x)

theorem heldMachine_exec (c : Call) (w : World) (x : c.Reply) (w' : World)
    (h : heldMachine.exec c w x w') : (heldWorkers sampleHash).exec 0 c w x w' := by
  rw [heldMachine, Machine.exec_guard, decide_eq_true_iff] at h
  exact ⟨h.2, h.1⟩

def heldStarted : World :=
  heldMachine.after freshPick (reconcile sampleHash sampleReconciler sampleKey) createdWorld

def heldMarked : World := heldStarted.afterEvent (.deleteBuild sampleKey)

def heldFinalized : World :=
  heldMachine.after freshPick (reconcile sampleHash sampleReconciler sampleKey) heldMarked

/-- A clean-up that sees the Job takes it along. -/
theorem finalized_without_job :
    heldStarted.hasOwnJob sampleHash sampleKey = true ∧ heldFinalized.build sampleKey = none ∧
      ∀ job ∈ heldFinalized.job "web-1", job.annotations ≠ some sampleKey := by
  have hcreated : (heldWorkers sampleHash).Steps (Config.idle World.empty)
      (Config.idle createdWorld) := steps_createdWorld rfl trivial
  have hstarted : (heldWorkers sampleHash).Steps (Config.idle createdWorld)
      (Config.idle heldStarted) :=
    steps_reconcile (w := createdWorld) ⟨_, _, rfl⟩ heldMachine_exec (by decide +kernel)
  have hmarked : (heldWorkers sampleHash).Steps (Config.idle heldStarted)
      (Config.idle heldMarked) :=
    steps_event (e := .deleteBuild sampleKey) rfl trivial (by decide +kernel)
  have hfinalized : (heldWorkers sampleHash).Steps (Config.idle heldMarked)
      (Config.idle heldFinalized) :=
    steps_reconcile (w := heldMarked) ⟨_, _, rfl⟩ heldMachine_exec (by decide +kernel)
  have hgone : heldFinalized.build sampleKey = none := by decide +kernel
  have hrun := ((hcreated.trans hstarted).trans hmarked).trans hfinalized
  exact ⟨by decide +kernel, hgone, no_orphan_job hrun hgone "web-1"⟩

def orphaned : World :=
  (machine sampleHash).after (laggingPick 1) (reconcile sampleHash sampleReconciler sampleKey)
    (plainStarted.afterEvent (.deleteBuild sampleKey))

/-- The clean-up drops the finalizer, and the Job stays. -/
theorem job_outlives_build :
    (workers sampleHash fun _ _ => True).Steps (Config.idle World.empty) (Config.idle orphaned) ∧
      orphaned.build sampleKey = none ∧
      (orphaned.job "web-1").map (·.annotations) = some (some sampleKey) := by
  have hmarked : (workers sampleHash fun _ _ => True).Steps (Config.idle plainStarted)
      (Config.idle (plainStarted.afterEvent (.deleteBuild sampleKey))) :=
    steps_event (e := .deleteBuild sampleKey) rfl trivial (by decide +kernel)
  have horphaned : (workers sampleHash fun _ _ => True).Steps
      (Config.idle (plainStarted.afterEvent (.deleteBuild sampleKey))) (Config.idle orphaned) :=
    steps_reconcile (t := 0) (w := plainStarted.afterEvent (.deleteBuild sampleKey)) ⟨_, _, rfl⟩
      (fun _ _ _ _ h => h) (by decide +kernel)
  exact ⟨(steps_plainStarted.trans hmarked).trans horphaned, by decide +kernel, by decide +kernel⟩

end Orkano.Operator.BuildController
