import Orkano.Operator.BuildController.Walk

/-!
The feature gates bind where work starts. A reference that was taken up is lost if the finalizer
then has to be added; that cannot happen, since a Build that has a Job carries the finalizer.
-/
namespace Orkano.Operator.BuildController

open Interleave Program List

variable {hash : String → String} {w w' : World} {key : Key}

variable (hash) in
/-- A stored finalizer stays, a Build with a Job has one, and the gate was open at every
create and had no Job behind it wherever a Build was disabled. -/
structure GateInv (w : World) : Prop where
  logInv : LogInv w
  kept : ∀ {key b₀ b}, some b₀ ∈ w.buildLog key → b₀.finalizer = true → w.build key = some b →
    b.finalizer = true
  held : ∀ {key}, w.hasOwnJob hash key = true → ∃ b₀, some b₀ ∈ w.buildLog key ∧ b₀.finalizer = true
  accepted : ∀ e ∈ w.created, validateApp e.1 e.2.app = none
  disabled : ∀ e ∈ w.disabled, ∀ job ∈ e.2, job.annotations ≠ some e.1

variable (hash) in
/-- Between two steps of a Build's reconcile nobody else gives it a Job. -/
def gateDiscipline : Discipline World Key where
  inv := GateInv hash
  evolves _ _ := True
  rely key w w' := Grows w w' ∧ (w'.hasOwnJob hash key = true → w.hasOwnJob hash key = true)
  evolves_refl _ := trivial
  evolves_trans := fun _ _ => trivial
  rely_refl _ w := ⟨Grows.refl w, id⟩
  rely_trans _ := fun h₁ h₂ => ⟨h₁.1.trans h₂.1, h₁.2 ∘ h₂.2⟩

/-- Names of Builds are not used again, so a Build that is deleted and created anew is left out;
and Jobs of others carry no annotations. -/
def GateEvent (w : World) : Event → Prop
  | .createBuild key _ _ => w.buildLog key = []
  | e => e.Unannotated

/-- The reconciles of one Build run one at a time. They may die at any moment, and each may
run with another feature Set. -/
def gatedWorkers (hash : String → String) : System apiServer World Key Errors where
  exec _ := (machine hash).exec
  env := Happens GateEvent
  restart w w' := w' = w
  starts key p := ∃ r, p = reconcile hash r key

variable (hash) in
def gateTerms (key : Key) : Terms :=
  { Terms.none with
    gate := fun features b => b.key = key ∧ validateApp features b.app = none
    disable := fun key w => w.hasOwnJob hash key = false }

theorem GateEvent.unannotated {e : Event} (h : GateEvent w e) : e.Unannotated := by
  cases e <;> first | exact h | trivial

/-- A step of the Builds, after which a finalizer is still there. -/
theorem GateInv.builds (h : GateInv hash w) (hl : LogInv w') (hg : Grows w w')
    (hj : w'.jobLog = w.jobLog) (hc : w'.created = w.created)
    (hd : ∀ e ∈ w'.disabled, e ∈ w.disabled ∨ ∀ job ∈ e.2, job.annotations ≠ some e.1)
    (hk : ∀ {key b0 b}, some b0 ∈ w'.buildLog key → b0.finalizer = true →
      w'.build key = some b → b.finalizer = true) : GateInv hash w' where
  logInv := hl
  kept := hk
  held hown := by
    rw [hasOwnJob_of_jobLog hj] at hown
    obtain ⟨b0, hb0, hf⟩ := h.held hown
    exact ⟨b0, hg.builds hb0, hf⟩
  accepted := by
    rw [hc]
    exact h.accepted
  disabled e he := (hd e he).elim (h.disabled e) id

/-- A new state that has the finalizer if an earlier one had it. -/
theorem GateInv.kept_pushBuild (h : GateInv hash w) {key' : Key} {o : Option BuildObject}
    (ho : ∀ b b0, o = some b → some b0 ∈ w.buildLog key' → b0.finalizer = true → b.finalizer = true)
    {b0 b : BuildObject} (hb0 : some b0 ∈ (w.pushBuild key' o).buildLog key)
    (hf : b0.finalizer = true) (hb : (w.pushBuild key' o).build key = some b) :
    b.finalizer = true := by
  by_cases hk : key = key'
  · subst hk
    rw [pushBuild_build] at hb
    rw [pushBuild_log] at hb0
    rcases mem_cons.mp hb0 with hn | hold
    · cases hb.symm.trans hn.symm
      exact hf
    · exact ho b b0 hb hold hf
  · rw [pushBuild_build_of_ne hk] at hb
    rw [pushBuild_log_of_ne hk] at hb0
    exact h.kept hb0 hf hb

/-- A step of the Jobs, where a Build that gets a Job has the finalizer. -/
theorem GateInv.jobs (h : GateInv hash w) (hb : w'.buildLog = w.buildLog)
    (hcl : w.clock ≤ w'.clock)
    (hc : ∀ e ∈ w'.created, e ∈ w.created ∨ validateApp e.1 e.2.app = none)
    (hd : w'.disabled = w.disabled)
    (hh : ∀ {key}, w'.hasOwnJob hash key = true → w.hasOwnJob hash key = true ∨
      ∃ b0, some b0 ∈ w.buildLog key ∧ b0.finalizer = true) : GateInv hash w' where
  logInv := h.logInv.of_logs hb hcl
  kept := by
    simp only [World.build, hb]
    exact h.kept
  held hown := by
    rw [hb]
    exact (hh hown).elim h.held id
  accepted e he := (hc e he).elim (h.accepted e) id
  disabled := by
    rw [hd]
    exact h.disabled

/-- Every write of a reconcile keeps the gate's invariant. -/
theorem gateInv_write {c : Call} (h : GateInv hash w)
    (hj : Justified hash (gateTerms hash key) c w) (hw : Write hash w c w') : GateInv hash w' := by
  obtain ⟨hl, hg⟩ := write_logInv h.logInv hw
  have hh : ∀ {key'}, w'.hasOwnJob hash key' = true → w.hasOwnJob hash key' = true ∨
      ∃ b0, some b0 ∈ w.buildLog key' ∧ b0.finalizer = true := by
    intro key' ho
    refine (hasOwnJob_write hw ho).imp_right ?_
    rintro ⟨_, b, rfl, rfl, _⟩
    obtain ⟨b0, hb0, _, hf, _⟩ := hj
    exact ⟨b0, hb0.mem, hf⟩
  cases hw with
  | same => exact h
  | @finalizer b cur hc hv hst =>
    obtain ⟨b0, hb0, hb, hf, _⟩ := hj
    obtain rfl := h.logInv.base_eq hc hb0 (hv.trans hb.symm)
    -- a finalizer is dropped only from a deleted Build, which is then gone
    have had : b.finalizer = true := by
      cases hd : cur.deleting with
      | false => rw [hf, hd]; rfl
      | true => simp [hf, hd] at hst
    refine h.builds hl hg rfl rfl (fun _ => .inl) (h.kept_pushBuild ?_)
    rintro _ _ ⟨⟩ _ _
    exact had
  | gone _ _ _ _ =>
    refine h.builds hl hg rfl rfl (fun _ => .inl) (h.kept_pushBuild ?_)
    rintro _ _ ⟨⟩
  | status hc _ _ =>
    refine h.builds hl hg rfl rfl (fun _ => .inl) (h.kept_pushBuild ?_)
    rintro _ b0 ⟨⟩ hb0 hf
    exact (h.kept hb0 hf hc :)
  | @disable b cur hc hv hr hot =>
    obtain ⟨b0, hb0, hb, _, hs | hn⟩ := hj
    · obtain rfl := h.logInv.base_eq hc hb0.mem (hv.trans hb.symm)
      exact (hot (hs hr)).elim
    refine h.builds hl hg rfl rfl ?_ (h.kept_pushBuild ?_)
    · intro e he
      rcases mem_cons.mp he with rfl | hold
      · refine .inr fun job hjb ha => ?_
        have ho := hasOwnJob_iff.mpr ⟨job, hjb, ha⟩
        rw [hn] at ho
        cases ho
      · exact .inl hold
    · rintro _ b0 ⟨⟩ hb0 hf
      exact (h.kept hb0 hf hc :)
  | created _ =>
    obtain ⟨_, _, _, _, _, _, hac⟩ := hj
    refine h.jobs rfl hg.clock ?_ rfl hh
    intro e he
    rcases mem_cons.mp he with rfl | hold
    · exact .inr hac
    · exact .inl hold
  | deleted _ => exact h.jobs rfl hg.clock (fun _ => .inl) rfl hh

/-- So does what others do, as far as it is admitted. -/
theorem gateInv_event {e : Event} (h : GateInv hash w) (hok : GateEvent w e) (he : Occurs w e w') :
    GateInv hash w' := by
  obtain ⟨hl, hg⟩ := event_logInv h.logInv he
  have hh : ∀ {key}, w'.hasOwnJob hash key = true → w.hasOwnJob hash key = true ∨
      ∃ b0, some b0 ∈ w.buildLog key ∧ b0.finalizer = true :=
    fun ho => .inl (hasOwnJob_event hok.unannotated he ho)
  cases he with
  | buildCreated _ =>
    refine h.builds hl hg rfl rfl (fun _ => .inl) (h.kept_pushBuild ?_)
    intro _ _ _ hb0
    rw [show w.buildLog _ = [] from hok] at hb0
    cases hb0
  | buildMarked hb _ =>
    refine h.builds hl hg rfl rfl (fun _ => .inl) (h.kept_pushBuild ?_)
    rintro _ b0 ⟨⟩ hb0 hf
    exact (h.kept hb0 hf hb :)
  | buildGone _ _ =>
    refine h.builds hl hg rfl rfl (fun _ => .inl) (h.kept_pushBuild ?_)
    rintro _ _ ⟨⟩
  | jobCreated | jobDeleted | jobStatus => exact h.jobs rfl hg.clock (fun _ => .inl) rfl hh

theorem gatedWorkers_walk :
    Walk hash (gateTerms hash key) (gatedWorkers hash).exec (gateDiscipline hash) key where
  grows h := h.1
  logInv := GateInv.logInv
  machine h := h
  confirm _ := trivial
  digest _ := trivial
  allowed hi hjust hx := by
    have hw := exec_write hx
    refine ⟨gateInv_write hi hjust hw, trivial, fun key' ho => ?_⟩
    refine ⟨(write_logInv hi.logInv hw).2, fun how => ?_⟩
    -- a reconcile creates Jobs for its own Build only
    rcases hasOwnJob_write hw how with hb | ⟨_, _, rfl, rfl, _⟩
    · exact hb
    · obtain ⟨_, _, _, _, _, hk, _⟩ := hjust
      exact (ho hk).elim

section Gate

variable {r : Reconciler} {b : BuildObject}

/-- At a closed gate a Build is disabled only when a live read shows no Job of it. -/
theorem safe_gateJob_gated (hb : Base w key b) (hk : b.key = key) :
    Safe (gatedWorkers hash).exec (gateDiscipline hash) key (fun _ _ => True)
      (gateJob hash r b) w := by
  have hp : Prepared hash w key b b := prepared_base hb hk
  unfold gateJob
  split
  · rename_i hjr
    have hs : b.status.jobRef ≠ none := Option.isSome_iff_ne_none.mp hjr
    exact safe_holdJob_of gatedWorkers_walk hp (fun h => (hs h).elim)
      fun _ _ _ _ h => (hs h).elim
  split
  · rename_i ha
    exact safe_holdJob_of gatedWorkers_walk hp (fun _ => ⟨hk, ha⟩)
      fun _ _ _ _ _ => ⟨hk, ha⟩
  apply Safe.bind
  refine (safe_adoptStartedJob gatedWorkers_walk hp).mono ?_
  rintro out w' ⟨hg, hi', had⟩
  obtain _ | _ | started := out
  · trivial
  · refine safe_disable gatedWorkers_walk (hb.grows hg) hk ?_ _
    intro w'' hr
    have hn : w'.hasOwnJob hash key = false := had
    have hsl : w''.hasOwnJob hash key = false := by
      rw [← Bool.not_eq_true] at hn ⊢
      exact mt hr.2 hn
    exact hsl
  · obtain ⟨hpr, hjr, ho⟩ := had
    have hs : started.status.jobRef ≠ none := Option.isSome_iff_ne_none.mp hjr
    refine safe_holdJob_of gatedWorkers_walk hpr (fun h => (hs h).elim) ?_
    -- a Build that has a Job has the finalizer, so this update would conflict
    intro w1 _ hr hi1 hst hf
    obtain ⟨b0, hb0, hf0⟩ := hi'.held ho
    rw [hi1.kept (hr.1.builds hb0) hf0 hst] at hf
    cases hf

/-- Any number of reconciles at once keep the gate's invariant. -/
theorem gatedWorkers_respect :
    (gatedWorkers hash).Respects (gateDiscipline hash) fun _ _ _ => True where
  starts := by
    rintro key p w ⟨r, rfl⟩ _
    exact safe_reconcile_of gatedWorkers_walk (safe_finalize gatedWorkers_walk fun _ _ => trivial)
      fun _ => safe_gateJob_gated
  lasts := fun _ _ _ _ _ _ => trivial
  env := by
    rintro w w' hw ⟨e, hok, he⟩
    have ho := event_occurs he
    exact ⟨gateInv_event hw hok ho, trivial, fun _ => ⟨(event_logInv hw.logInv ho).2,
      hasOwnJob_event hok.unannotated ho⟩⟩
  restart := by
    rintro w _ hw rfl
    exact ⟨hw, trivial⟩

theorem gateInv_empty : GateInv hash World.empty where
  logInv := logInv_empty
  kept h := (not_mem_nil h).elim
  held := nofun
  accepted _ h := (not_mem_nil h).elim
  disabled _ h := (not_mem_nil h).elim

/-- In every run: each Job was created by a reconcile whose feature Set accepted the
Build's source and strategy, and no Build was failed for a disabled feature while a Job of
its own was stored. -/
theorem gates_bind_at_start {c : Config apiServer World Key Errors}
    (hc : (gatedWorkers hash).Steps (Config.idle World.empty) c) :
    (∀ e ∈ c.shared.created, validateApp e.1 e.2.app = none) ∧
      ∀ e ∈ c.shared.disabled, ∀ job ∈ e.2, job.annotations ≠ some e.1 := by
  have hinv := (System.reachable_good gatedWorkers_respect (System.good_idle gateInv_empty) hc).1.inv
  exact ⟨hinv.accepted, hinv.disabled⟩

end Gate

def archiveSpec : BuildSpec :=
  ⟨"web", "", ⟨none, none, some ⟨"c0ffee", "web.zip"⟩, ""⟩, ⟨.dockerfile, none, none, none⟩⟩

def archiveCreated : World := World.empty.afterEvent (.createBuild sampleKey archiveSpec 0)

def archiveStarted : World :=
  (machine sampleHash).after lostStatusPick
    (reconcile sampleHash { sampleReconciler with features := [.sourceZip] } sampleKey) archiveCreated

def archiveAdopted : World :=
  (machine sampleHash).after freshPick (reconcile sampleHash sampleReconciler sampleKey)
    archiveStarted

/-- The started Build goes on. -/
theorem started_build_adopted :
    archiveAdopted.created.map (·.1) = [[.sourceZip]] ∧
      (archiveAdopted.build sampleKey).map (·.status.phase) = some .pending ∧
      (∀ e ∈ archiveAdopted.created, validateApp e.1 e.2.app = none) ∧
      ∀ e ∈ archiveAdopted.disabled, ∀ job ∈ e.2, job.annotations ≠ some e.1 := by
  have hcreated : (gatedWorkers sampleHash).Steps (Config.idle World.empty)
      (Config.idle archiveCreated) :=
    steps_event (e := .createBuild sampleKey archiveSpec 0) rfl rfl (by decide +kernel)
  have hstarted : (gatedWorkers sampleHash).Steps (Config.idle archiveCreated)
      (Config.idle archiveStarted) :=
    steps_reconcile (t := sampleKey) (w := archiveCreated) ⟨_, rfl⟩ (fun _ _ _ _ h => h)
      (by decide +kernel)
  have hadopted : (gatedWorkers sampleHash).Steps (Config.idle archiveStarted)
      (Config.idle archiveAdopted) :=
    steps_reconcile (t := sampleKey) (w := archiveStarted) ⟨_, rfl⟩ (fun _ _ _ _ h => h)
      (by decide +kernel)
  have hgates := gates_bind_at_start ((hcreated.trans hstarted).trans hadopted)
  exact ⟨by decide +kernel, by decide +kernel, hgates⟩

end Orkano.Operator.BuildController
