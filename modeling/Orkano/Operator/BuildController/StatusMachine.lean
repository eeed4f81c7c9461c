import Orkano.Operator.BuildController.Walk

/-!
The status of a Build over its whole life. A status write succeeds only on the state it was
derived from, which was not finished.
-/
namespace Orkano.Operator.BuildController

open Interleave Program List

variable {hash : String → String} {w w' : World} {key : Key} {t : ℕ}

def DigestPinned (image : String) : Prop := "@sha256:".toList <:+: image.toList

instance (image : String) : Decidable (DigestPinned image) :=
  inferInstanceAs (Decidable ("@sha256:".toList <:+: image.toList))

structure Advances (s s' : BuildStatus) : Prop where
  final : s.phase = .succeeded ∨ s.phase = .failed → s'.phase = s.phase
  running : s.phase = .running → s'.phase ≠ .none ∧ s'.phase ≠ .pending
  jobRef : s.jobRef.isSome → s'.jobRef.isSome

structure ImageOk (s : BuildStatus) : Prop where
  iff_succeeded : s.image ≠ "" ↔ s.phase = .succeeded
  pinned : s.phase = .succeeded → DigestPinned s.image

def Later (newer older : Option BuildObject) : Prop :=
  ∀ b' b, newer = some b' → older = some b → b'.uid = b.uid → Advances b.status b'.status

theorem DigestPinned.ne_empty {image : String} (h : DigestPinned image) : image ≠ "" := by
  rintro rfl
  have hl := h.length_le
  simp at hl

theorem Advances.refl (s : BuildStatus) : Advances s s := by
  refine ⟨fun _ => rfl, fun h => ?_, id⟩
  simp [h]

/-- A status that advances twice has advanced. -/
theorem Advances.trans {s1 s2 s3 : BuildStatus} (h1 : Advances s1 s2) (h2 : Advances s2 s3) :
    Advances s1 s3 := by
  constructor
  · intro hf
    have heq := h1.final hf
    exact (h2.final (heq ▸ hf)).trans heq
  · intro hr
    obtain ⟨hn, hpn⟩ := h1.running hr
    cases hp : s2.phase with
    | none => exact absurd hp hn
    | pending => exact absurd hp hpn
    | running => exact h2.running hp
    | succeeded => simp [h2.final (.inl hp), hp]
    | failed => simp [h2.final (.inr hp), hp]
  · intro hs
    exact h2.jobRef (h1.jobRef hs)

theorem not_final {s : BuildStatus} (h : s.isTerminal = false) :
    s.phase ≠ .succeeded ∧ s.phase ≠ .failed := by
  simpa [BuildStatus.isTerminal] using h

/-- What a reconcile derives from an unfinished status is an advance. -/
theorem Derived.advances {T : Terms} {s s' : BuildStatus} (h : Derived hash T w key s s')
    (ho : s.isTerminal = false) : Advances s s' := by
  obtain ⟨hsc, hf⟩ := not_final ho
  constructor
  · rintro (hp | hp)
    · exact absurd hp hsc
    · exact absurd hp hf
  · intro hr
    rcases h.phase with heq | ⟨job, _, hs⟩ | ⟨heq, _⟩
    · simp [heq, hr]
    · rw [hr] at hs
      generalize s'.phase = p at hs
      cases hs with
      | failed | succeeded | running => simp
      | pending hfr => simp at hfr
    · simp [heq]
  · intro hsm
    rcases h.jobRef with heq | ⟨heq, _⟩
    · rw [heq]
      exact hsm
    · rw [heq]
      rfl

theorem Derived.imageOk {T : Terms} {s s' : BuildStatus} (h : Derived hash T w key s s')
    (hpn : ∀ image, T.pinned image → DigestPinned image) (ho : s.isTerminal = false)
    (hs : ImageOk s) : ImageOk s' := by
  rcases h.image with ⟨hi, hp⟩ | ⟨hp, hi, _⟩
  · have he : s.image = "" := by
      by_contra hne
      exact (not_final ho).1 (hs.iff_succeeded.mp hne)
    rw [he] at hi
    refine ⟨?_, fun h => absurd h hp⟩
    simp [hi, hp]
  · have hd := hpn _ hi
    exact ⟨⟨fun _ => hp, fun _ => hd.ne_empty⟩, fun _ => hd⟩

structure StatusInv (w : World) : Prop where
  logInv : LogInv w
  later : ∀ key, (w.buildLog key).Pairwise Later
  imageOk : ∀ {key b}, some b ∈ w.buildLog key → ImageOk b.status

theorem StatusInv.of_logs (h : StatusInv w) (hl : w'.buildLog = w.buildLog)
    (hc : w.clock ≤ w'.clock) : StatusInv w' :=
  ⟨h.logInv.of_logs hl hc, fun key => hl ▸ h.later key, fun hb => h.imageOk (hl ▸ hb)⟩

theorem buildLog_of_build {cur : BuildObject} (h : w.build key = some cur) :
    ∃ rest, w.buildLog key = some cur :: rest := by
  unfold World.build at h
  rw [Option.join_eq_some_iff] at h
  exact head?_eq_some_iff.mp h

theorem StatusInv.push (h : StatusInv w) {o : Option BuildObject}
    (hn : ∀ b, o = some b → NewState w key b ∧ ImageOk b.status)
    (hl : ∀ older ∈ w.buildLog key, Later o older) : StatusInv (w.pushBuild key o) where
  logInv := logInv_pushBuild h.logInv fun b hb => (hn b hb).1
  later key' := by
    by_cases hk : key' = key
    · subst hk
      rw [pushBuild_log, pairwise_cons]
      exact ⟨hl, h.later key'⟩
    · rw [pushBuild_log_of_ne hk]
      exact h.later key'
  imageOk {key' b} hb := by
    rcases mem_pushBuild hb with ⟨_, hb⟩ | hold
    · exact (hn b hb).2
    · exact h.imageOk hold

theorem StatusInv.push_none (h : StatusInv w) : StatusInv (w.pushBuild key none) := by
  apply h.push
  · rintro _ ⟨⟩
  · rintro _ _ _ _ ⟨⟩

/-- A stored status that advances from the present one keeps the invariant. -/
theorem StatusInv.push_next (h : StatusInv w) {cur new : BuildObject}
    (hc : w.build key = some cur) (hk : new.key = cur.key) (hv : new.resourceVersion = w.clock)
    (hu : new.uid = cur.uid) (ha : Advances cur.status new.status) (hi : ImageOk new.status) :
    StatusInv (w.pushBuild key (some new)) := by
  apply h.push
  · rintro _ ⟨⟩
    exact ⟨newState_of_build h.logInv hc hk hv hu, hi⟩
  obtain ⟨rest, hl⟩ := buildLog_of_build hc
  have hp := h.later key
  rw [hl, pairwise_cons] at hp
  intro older ho
  rw [hl] at ho
  rintro _ b ⟨⟩ rfl hs
  rcases mem_cons.mp ho with heq | hr
  · cases heq
    exact ha
  · exact (hp.1 _ hr cur b rfl rfl (hu.symm.trans hs)).trans ha

theorem StatusInv.push_same (h : StatusInv w) {cur new : BuildObject}
    (hc : w.build key = some cur) (hk : new.key = cur.key) (hv : new.resourceVersion = w.clock)
    (hu : new.uid = cur.uid) (hs : new.status = cur.status) :
    StatusInv (w.pushBuild key (some new)) := by
  apply h.push_next hc hk hv hu
  · rw [hs]
    exact .refl _
  · rw [hs]
    exact h.imageOk (mem_buildLog_of_build hc)

def statusDiscipline : Discipline World ℕ where
  inv := StatusInv
  evolves _ _ := True
  rely _ := Grows
  evolves_refl _ := trivial
  evolves_trans := fun _ _ => trivial
  rely_refl _ := Grows.refl
  rely_trans _ := fun h₁ h₂ => h₁.trans h₂

def PinnedReply : (c : Call) → c.Reply → Prop
  | .resolveDigest _, .ok image => DigestPinned image
  | _, _ => True

instance : (c : Call) → (x : c.Reply) → Decidable (PinnedReply c x)
  | .resolveDigest _, .ok image => inferInstanceAs (Decidable (DigestPinned image))
  | .resolveDigest _, .error _ | .getBuild _, _ | .updateBuild _, _ | .updateStatus _, _
  | .getJob _ _, _ | .readJob _ _, _ | .createJob _ _, _ | .deleteJob _, _ | .listPods _, _ =>
    inferInstanceAs (Decidable True)

def pinnedWorkers (hash : String → String) : System apiServer World ℕ Errors :=
  (workers hash fun _ _ => True).restrict fun _ c _ x => PinnedReply c x

def pinnedTerms : Terms := { Terms.none with pinned := DigestPinned }

/-- Every write of a reconcile advances the status. -/
theorem statusInv_write {c : Call} (h : StatusInv w) (hj : Justified hash pinnedTerms c w)
    (hw : Write hash w c w') : StatusInv w' := by
  cases hw with
  | same => exact h
  | finalizer hc _ _ => exact h.push_same hc rfl rfl rfl rfl
  | gone _ _ _ _ => exact h.push_none
  | @status b cur hc hv _ =>
    obtain ⟨b0, hb, hb0, hd, _⟩ := hj
    obtain rfl := h.logInv.base_eq hc hb.mem (hv.trans hb0.symm)
    exact h.push_next hc rfl rfl rfl (hd.advances hb.unfinished)
      (hd.imageOk (fun _ => id) hb.unfinished (h.imageOk hb.mem))
  | @disable b cur hc hv _ _ =>
    obtain ⟨b0, hb, hb0, hd, _⟩ := hj
    obtain rfl := h.logInv.base_eq hc hb.mem (hv.trans hb0.symm)
    have hp : StatusInv (w.pushBuild b.key
        (some { cur with status := b.status, resourceVersion := w.clock })) :=
      h.push_next hc rfl rfl rfl (hd.advances hb.unfinished)
        (hd.imageOk (fun _ => id) hb.unfinished (h.imageOk hb.mem))
    exact hp.of_logs rfl le_rfl
  | created | deleted => exact h.of_logs rfl (Nat.le_succ _)

theorem statusInv_event {e : Event} (h : StatusInv w) (he : Occurs w e w') : StatusInv w' := by
  cases he with
  | buildCreated _ =>
    apply h.push
    · rintro _ ⟨⟩
      refine ⟨⟨rfl, rfl, le_rfl⟩, ⟨?_, ?_⟩⟩ <;> simp [BuildStatus.empty]
    rintro older ho _ b ⟨⟩ rfl hs
    -- the uid of a new Build is fresh
    have hlt := h.logInv.uid_lt ho
    dsimp only at hs
    omega
  | buildMarked hb _ => exact h.push_same hb rfl rfl rfl rfl
  | buildGone _ _ => exact h.push_none
  | jobCreated | jobDeleted | jobStatus => exact h.of_logs rfl (Nat.le_succ _)

theorem pinnedWorkers_walk :
    Walk hash pinnedTerms (pinnedWorkers hash).exec statusDiscipline t where
  grows := id
  logInv := StatusInv.logInv
  machine h := h.2
  confirm _ := trivial
  digest h := h.1
  allowed hi hjust hx := by
    have hw := exec_write hx.2
    exact ⟨statusInv_write hi hjust hw, trivial, fun _ _ => (write_logInv hi.logInv hw).2⟩

/-- Any number of reconciles at once advance the statuses. -/
theorem pinnedWorkers_respect :
    (pinnedWorkers hash).Respects statusDiscipline fun _ _ _ => True where
  starts := by
    rintro t p w ⟨r, key, rfl⟩ _
    exact safe_reconcile pinnedWorkers_walk ⟨⟨fun _ _ => trivial, fun _ _ => trivial⟩, fun _ _ => trivial⟩
  lasts := fun _ _ _ _ _ _ => trivial
  env := by
    rintro w w' hw ⟨e, _, he⟩
    have ho := event_occurs he
    exact ⟨statusInv_event hw ho, trivial, fun _ => (event_logInv hw.logInv ho).2⟩
  restart := by
    rintro w _ hw rfl
    exact ⟨hw, trivial⟩

theorem statusInv_empty : StatusInv World.empty :=
  ⟨logInv_empty, fun _ => .nil, fun h => (not_mem_nil h).elim⟩

/-- In every state that any number of workers can reach: of two stored states of one
Build the later one advances the earlier, and an image is set exactly with success, and
pinned. -/
theorem build_status_advances {c : Config apiServer World ℕ Errors}
    (hc : (pinnedWorkers hash).Steps (Config.idle World.empty) c) (key : Key) :
    (c.shared.buildLog key).Pairwise (fun newer older => ∀ b' b, newer = some b' →
      older = some b → b'.uid = b.uid →
        (b.status.phase = .succeeded ∨ b.status.phase = .failed →
          b'.status.phase = b.status.phase) ∧
        (b.status.phase = .running → b'.status.phase ≠ .none ∧ b'.status.phase ≠ .pending) ∧
        (b.status.jobRef.isSome → b'.status.jobRef.isSome)) ∧
    ∀ b, some b ∈ c.shared.buildLog key →
      (b.status.image ≠ "" ↔ b.status.phase = .succeeded) ∧
      (b.status.phase = .succeeded → DigestPinned b.status.image) := by
  have hinv := (System.reachable_good pinnedWorkers_respect (System.good_idle statusInv_empty) hc).1.inv
  constructor
  · refine (hinv.later key).imp ?_
    intro newer older hlater b' b hb' hb hsame
    have hadvances := hlater b' b hb' hb hsame
    exact ⟨hadvances.final, hadvances.running, hadvances.jobRef⟩
  · intro b hb
    exact ⟨(hinv.imageOk hb).iff_succeeded, (hinv.imageOk hb).pinned⟩

def pinnedMachine : Machine apiServer World :=
  (machine sampleHash).guard fun c _ x _ => decide (PinnedReply c x)

/-- The Build is reconciled, its Job completes, and it is reconciled again. -/
def startedWorld : World :=
  pinnedMachine.after freshPick (reconcile sampleHash sampleReconciler sampleKey) createdWorld

def completedWorld : World := startedWorld.afterEvent (.setJobStatus "web-1" completeStatus)

def pushedWorld : World :=
  pinnedMachine.after freshPick (reconcile sampleHash sampleReconciler sampleKey) completedWorld

theorem pinnedMachine_exec (c : Call) (w : World) (x : c.Reply) (w' : World)
    (h : pinnedMachine.exec c w x w') : (pinnedWorkers sampleHash).exec 0 c w x w' := by
  rw [pinnedMachine, Machine.exec_guard, decide_eq_true_iff] at h
  exact ⟨h.2, h.1⟩

/-- A Build from its creation to its image. -/
theorem first_build_succeeds :
    pushedWorld.buildLog sampleKey ≠ [] ∧
      (∀ b, some b ∈ pushedWorld.buildLog sampleKey →
        (b.status.image ≠ "" ↔ b.status.phase = .succeeded)) ∧
      (pushedWorld.build sampleKey).map (·.status.phase) = some .succeeded := by
  have hcreated : (pinnedWorkers sampleHash).Steps (Config.idle World.empty)
      (Config.idle createdWorld) :=
    steps_createdWorld rfl trivial
  have hstarted : (pinnedWorkers sampleHash).Steps (Config.idle createdWorld)
      (Config.idle startedWorld) :=
    steps_reconcile (w := createdWorld) ⟨_, _, rfl⟩ pinnedMachine_exec (by decide +kernel)
  have hcompleted : (pinnedWorkers sampleHash).Steps (Config.idle startedWorld)
      (Config.idle completedWorld) :=
    steps_event (e := .setJobStatus "web-1" completeStatus) rfl trivial (by decide +kernel)
  have hpushed : (pinnedWorkers sampleHash).Steps (Config.idle completedWorld)
      (Config.idle pushedWorld) :=
    steps_reconcile (w := completedWorld) ⟨_, _, rfl⟩ pinnedMachine_exec (by decide +kernel)
  have hsteps := ((hcreated.trans hstarted).trans hcompleted).trans hpushed
  have himages := (build_status_advances hsteps sampleKey).2
  dsimp only [Config.idle] at himages
  exact ⟨by decide +kernel, fun b hb => (himages b hb).1, by decide +kernel⟩

end Orkano.Operator.BuildController
