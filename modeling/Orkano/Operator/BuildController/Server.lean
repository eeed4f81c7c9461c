import Orkano.Operator.BuildController.Controller

/-!
The API server as the Build controller meets it. It keeps every state an object was in, so that a
cached read can answer with an old one; a deletion waits for the finalizer.
-/
namespace Orkano.Operator.BuildController

open Interleave Program

section Server

/-- The logs hold the states of each object, newest first, with `none` for its absence.
`clock` is the next uid and resource version. `created` and `deleted` list what
reconciles did to Jobs, `deleted` with the Build it was done for, and `disabled` lists
the Builds whose status came to report a disabled feature, with what was under the name
of their Job at that moment. -/
structure World where
  buildLog : Key → List (Option BuildObject)
  jobLog : String → List (Option Job)
  clock : ℕ
  created : List (List Feature × BuildObject)
  deleted : List (Key × Job)
  disabled : List (Key × Option Job)

def World.empty : World := ⟨fun _ => [], fun _ => [], 0, [], [], []⟩

def World.build (w : World) (key : Key) : Option BuildObject := (w.buildLog key).head?.join

def World.job (w : World) (name : String) : Option Job := (w.jobLog name).head?.join

def World.pushBuild (w : World) (key : Key) (o : Option BuildObject) : World :=
  { w with buildLog := Function.update w.buildLog key (o :: w.buildLog key), clock := w.clock + 1 }

def World.pushJob (w : World) (name : String) (o : Option Job) : World :=
  { w with jobLog := Function.update w.jobLog name (o :: w.jobLog name), clock := w.clock + 1 }

/-- Everything but the status; the last finalizer of a deleted object ends it. -/
def World.updateBuild (w : World) (b : BuildObject) : Option BuildObject × World :=
  match w.build b.key with
  | none => (none, w)
  | some cur =>
    if cur.resourceVersion ≠ b.resourceVersion then (none, w)
    else
      let new := { cur with finalizer := b.finalizer, resourceVersion := w.clock }
      (some new, w.pushBuild b.key (if cur.deleting ∧ ¬ b.finalizer then none else some new))

variable (hash : String → String)

/-- The Job under the name that belongs to a Build. -/
def World.jobOf (w : World) (key : Key) : Option Job := w.job (jobName hash key.name)

def World.jobLogOf (w : World) (key : Key) : List (Option Job) := w.jobLog (jobName hash key.name)

def World.updateStatus (w : World) (b : BuildObject) : Bool × World :=
  match w.build b.key with
  | none => (false, w)
  | some cur =>
    if cur.resourceVersion ≠ b.resourceVersion then (false, w)
    else
      let w' := w.pushBuild b.key (some { cur with status := b.status, resourceVersion := w.clock })
      (true, if b.status.reason = some .featureDisabled ∧ cur.status.reason ≠ some .featureDisabled
        then { w' with disabled := (b.key, w.jobOf hash b.key) :: w.disabled } else w')

def World.createJob (w : World) (features : List Feature) (b : BuildObject) : CreateReply × World :=
  match w.jobOf hash b.key with
  | some _ => (.alreadyExists, w)
  | none =>
    let job : Job := ⟨w.clock, some b.key, .empty⟩
    (.created job, { w.pushJob (jobName hash b.key.name) (some job) with
      created := (features, b) :: w.created })

/-- By name alone, without a precondition on the uid. -/
def World.deleteJob (w : World) (key : Key) : World :=
  match w.jobOf hash key with
  | none => w
  | some job => { w.pushJob (jobName hash key.name) none with deleted := (key, job) :: w.deleted }

end Server

/-- A read from the cache picks how many states it lags behind. -/
@[reducible] def Call.Choice : Call → Type
  | getBuild _ | getJob _ _ => Option ℕ
  | readJob _ _ => Bool
  | updateBuild _ | updateStatus _ | createJob _ _ | deleteJob _ => Option Fault
  | listPods _ => Option (List Pod)
  | resolveDigest _ => Except String String

def lagged {α : Type} (log : List (Option α)) (lag : ℕ) : Option (GetReply α) :=
  ((log ++ [none])[lag]?).map fun o => o.elim .notFound .found

def current {α : Type} : Option α → GetReply α
  | none => .notFound
  | some a => .found a

def answer (hash : String → String) : (c : Call) → c.Choice → World → Option (c.Reply × World)
  | .getBuild _, none, w => some (.error, w)
  | .getBuild key, some lag, w => (lagged (w.buildLog key) lag).map (·, w)
  | .getJob _ _, none, w => some (.error, w)
  | .getJob _ key, some lag, w => (lagged (w.jobLogOf hash key) lag).map (·, w)
  | .readJob _ _, true, w => some (.error, w)
  | .readJob _ key, false, w => some (current (w.jobOf hash key), w)
  | .updateBuild b, none, w => some (w.updateBuild b)
  | .updateBuild _, some .before, w => some (none, w)
  | .updateBuild b, some .after, w => some (none, (w.updateBuild b).2)
  | .updateStatus b, none, w => some (w.updateStatus hash b)
  | .updateStatus _, some .before, w => some (false, w)
  | .updateStatus b, some .after, w => some (false, (w.updateStatus hash b).2)
  | .createJob features b, none, w => some (w.createJob hash features b)
  | .createJob _ _, some .before, w => some (.error, w)
  | .createJob features b, some .after, w => some (.error, (w.createJob hash features b).2)
  | .deleteJob key, none, w => some (true, w.deleteJob hash key)
  | .deleteJob _, some .before, w => some (false, w)
  | .deleteJob key, some .after, w => some (false, w.deleteJob hash key)
  | .listPods _, pods, w => some (pods, w)
  | .resolveDigest _, x, w => some (x, w)

def machine (hash : String → String) : Machine apiServer World where
  Choice := Call.Choice
  answer := answer hash

inductive Event where
  | createBuild (key : Key) (spec : BuildSpec) (timeoutSeconds : ℤ)
  | deleteBuild (key : Key)
  | createJob (name : String) (annotations : Option Key) (status : JobStatus)
  | deleteJob (name : String)
  | setJobStatus (name : String) (status : JobStatus)

def World.event (w : World) : Event → Option World
  | .createBuild key spec timeoutSeconds =>
    match w.build key with
    | some _ => none
    | none => some (w.pushBuild key
        (some ⟨key, w.clock, w.clock, 1, false, false, spec, timeoutSeconds, .empty⟩))
  | .deleteBuild key =>
    match w.build key with
    | none => none
    | some b => some (w.pushBuild key (if b.finalizer then
        some { b with
          deleting := true
          generation := b.generation + 1
          resourceVersion := w.clock } else none))
  | .createJob name annotations status =>
    match w.job name with
    | some _ => none
    | none => some (w.pushJob name (some ⟨w.clock, annotations, status⟩))
  | .deleteJob name =>
    match w.job name with
    | none => none
    | some _ => some (w.pushJob name none)
  | .setJobStatus name status =>
    match w.job name with
    | none => none
    | some job => some (w.pushJob name (some { job with status := status }))

/-- Events that satisfy `ok`. -/
def Happens (ok : World → Event → Prop) (w w' : World) : Prop := ∃ e, ok w e ∧ w.event e = some w'

/-- Any number of workers, which reconcile any Builds and may die at any moment; a restart
may change the feature Set. -/
def workers (hash : String → String) (ok : World → Event → Prop) :
    System apiServer World ℕ Errors where
  exec _ := (machine hash).exec
  env := Happens ok
  restart w w' := w' = w
  starts _ p := ∃ r key, p = reconcile hash r key

section Logs

variable {hash : String → String} {w w' : World} {key : Key} {b : BuildObject}

theorem mem_buildLog_of_build (h : w.build key = some b) : some b ∈ w.buildLog key := by
  unfold World.build at h
  rw [Option.join_eq_some_iff] at h
  exact List.mem_of_mem_head? h

variable {name : String}

theorem mem_jobLog_of_job {job : Job} (h : w.job name = some job) : some job ∈ w.jobLog name := by
  unfold World.job at h
  rw [Option.join_eq_some_iff] at h
  exact List.mem_of_mem_head? h

theorem mem_update_cons {κ α : Type} [DecidableEq κ] {log : κ → List α} {k k' : κ} {a b : α} :
    b ∈ Function.update log k (a :: log k) k' ↔ k' = k ∧ b = a ∨ b ∈ log k' := by
  by_cases hk : k' = k
  · subst hk
    rw [Function.update_self, List.mem_cons, and_iff_right rfl]
  · rw [Function.update_of_ne hk, or_iff_right fun h => hk h.1]

@[simp] theorem pushBuild_log (o : Option BuildObject) :
    (w.pushBuild key o).buildLog key = o :: w.buildLog key := Function.update_self ..

theorem pushBuild_log_of_ne {key' : Key} (h : key' ≠ key) (o : Option BuildObject) :
    (w.pushBuild key o).buildLog key' = w.buildLog key' := Function.update_of_ne h ..

@[simp] theorem pushJob_log (o : Option Job) :
    (w.pushJob name o).jobLog name = o :: w.jobLog name := Function.update_self ..

theorem pushJob_log_of_ne {name' : String} (h : name' ≠ name) (o : Option Job) :
    (w.pushJob name o).jobLog name' = w.jobLog name' := Function.update_of_ne h ..

@[simp] theorem pushBuild_build (o : Option BuildObject) : (w.pushBuild key o).build key = o := by
  simp [World.build]

theorem pushBuild_build_of_ne {key' : Key} (h : key' ≠ key) (o : Option BuildObject) :
    (w.pushBuild key o).build key' = w.build key' := by
  simp [World.build, pushBuild_log_of_ne h]

@[simp] theorem pushJob_job (o : Option Job) : (w.pushJob name o).job name = o := by
  simp [World.job]

theorem pushJob_job_of_ne {name' : String} (h : name' ≠ name) (o : Option Job) :
    (w.pushJob name o).job name' = w.job name' := by
  simp [World.job, pushJob_log_of_ne h]

theorem lagged_zero {α : Type} (log : List (Option α)) :
    lagged log 0 = some (current log.head?.join) := by
  obtain _ | ⟨_ | a, rest⟩ := log <;> rfl

theorem lagged_found {α : Type} {log : List (Option α)} {lag : ℕ} {a : α}
    (h : lagged log lag = some (.found a)) : some a ∈ log := by
  obtain ⟨o, ho, hf⟩ := Option.map_eq_some_iff.mp h
  have hm : o ∈ log ++ [none] := List.mem_of_getElem? ho
  cases o with
  | none => cases hf
  | some a' =>
    cases hf
    simpa using hm

inductive Write (hash : String → String) (w : World) : Call → World → Prop where
  | same {c : Call} : Write hash w c w
  | finalizer {b cur : BuildObject} : w.build b.key = some cur →
      cur.resourceVersion = b.resourceVersion → ¬ (cur.deleting ∧ ¬ b.finalizer) →
      Write hash w (.updateBuild b) (w.pushBuild b.key
        (some { cur with finalizer := b.finalizer, resourceVersion := w.clock }))
  | gone {b cur : BuildObject} : w.build b.key = some cur →
      cur.resourceVersion = b.resourceVersion → cur.deleting → b.finalizer = false →
      Write hash w (.updateBuild b) (w.pushBuild b.key none)
  | status {b cur : BuildObject} : w.build b.key = some cur →
      cur.resourceVersion = b.resourceVersion →
      (b.status.reason = some .featureDisabled → cur.status.reason = some .featureDisabled) →
      Write hash w (.updateStatus b) (w.pushBuild b.key
        (some { cur with status := b.status, resourceVersion := w.clock }))
  | disable {b cur : BuildObject} : w.build b.key = some cur →
      cur.resourceVersion = b.resourceVersion → b.status.reason = some .featureDisabled →
      cur.status.reason ≠ some .featureDisabled →
      Write hash w (.updateStatus b)
        { w.pushBuild b.key (some { cur with status := b.status, resourceVersion := w.clock }) with
          disabled := (b.key, w.jobOf hash b.key) :: w.disabled }
  | created {features : List Feature} {b : BuildObject} : w.jobOf hash b.key = none →
      Write hash w (.createJob features b)
        { w.pushJob (jobName hash b.key.name) (some ⟨w.clock, some b.key, .empty⟩) with
          created := (features, b) :: w.created }
  | deleted {key : Key} {job : Job} : w.jobOf hash key = some job →
      Write hash w (.deleteJob key)
        { w.pushJob (jobName hash key.name) none with deleted := (key, job) :: w.deleted }

/-- An update changes the finalizer of a Build, or lets a deleted Build go. -/
theorem write_updateBuild (w : World) (b : BuildObject) :
    Write hash w (.updateBuild b) (w.updateBuild b).2 := by
  unfold World.updateBuild
  split
  · exact .same
  rename_i cur hc
  split
  · exact .same
  rename_i hv
  rw [ne_eq, not_not] at hv
  dsimp only
  by_cases hg : cur.deleting ∧ ¬ b.finalizer
  · rw [if_pos hg]
    exact .gone hc hv hg.1 (by simpa using hg.2)
  · rw [if_neg hg]
    exact .finalizer hc hv hg

theorem write_updateStatus (w : World) (b : BuildObject) :
    Write hash w (.updateStatus b) (w.updateStatus hash b).2 := by
  unfold World.updateStatus
  split
  · exact .same
  rename_i cur hc
  split
  · exact .same
  rename_i hv
  rw [ne_eq, not_not] at hv
  dsimp only
  split
  · rename_i hr
    exact .disable hc hv hr.1 hr.2
  rename_i hr
  refine .status hc hv fun h => ?_
  by_contra hcurReason
  exact hr ⟨h, hcurReason⟩

theorem write_createJob (w : World) (features : List Feature) (b : BuildObject) :
    Write hash w (.createJob features b) (w.createJob hash features b).2 := by
  unfold World.createJob
  split
  · exact .same
  · rename_i hn
    exact .created hn

theorem write_deleteJob (w : World) (key : Key) :
    Write hash w (.deleteJob key) (w.deleteJob hash key) := by
  unfold World.deleteJob
  split
  · exact .same
  · rename_i job hj
    exact .deleted hj

/-- Every answered call leaves the world as it was or makes its write. -/
theorem exec_write {c : Call} {x : c.Reply} (h : (machine hash).exec c w x w') :
    Write hash w c w' := by
  obtain ⟨k, hk⟩ := h
  cases c with
  | getBuild | getJob =>
    cases k with
    | none =>
      cases hk
      exact .same
    | some lag =>
      obtain ⟨_, _, hw'⟩ := Option.map_eq_some_iff.mp hk
      cases hw'
      exact .same
  | readJob why key =>
    cases k <;>
    · cases hk
      exact .same
  | listPods | resolveDigest =>
    cases hk
    exact .same
  | updateBuild b =>
    obtain _ | _ | _ := k
    · have hw' : (w.updateBuild b).2 = w' := congrArg Prod.snd (Option.some.inj hk)
      exact hw' ▸ write_updateBuild w b
    · cases hk
      exact .same
    · cases hk
      exact write_updateBuild w b
  | updateStatus b =>
    obtain _ | _ | _ := k
    · have hw' : (w.updateStatus hash b).2 = w' := congrArg Prod.snd (Option.some.inj hk)
      exact hw' ▸ write_updateStatus w b
    · cases hk
      exact .same
    · cases hk
      exact write_updateStatus w b
  | createJob features b =>
    obtain _ | _ | _ := k
    · have hw' : (w.createJob hash features b).2 = w' := congrArg Prod.snd (Option.some.inj hk)
      exact hw' ▸ write_createJob w features b
    · cases hk
      exact .same
    · cases hk
      exact write_createJob w features b
  | deleteJob key =>
    obtain _ | _ | _ := k
    · cases hk
      exact write_deleteJob w key
    · cases hk
      exact .same
    · cases hk
      exact write_deleteJob w key

inductive Occurs (w : World) : Event → World → Prop where
  | buildCreated {key : Key} {spec : BuildSpec} {timeoutSeconds : ℤ} : w.build key = none →
      Occurs w (.createBuild key spec timeoutSeconds) (w.pushBuild key
        (some ⟨key, w.clock, w.clock, 1, false, false, spec, timeoutSeconds, .empty⟩))
  | buildMarked {key : Key} {b : BuildObject} : w.build key = some b → b.finalizer = true →
      Occurs w (.deleteBuild key) (w.pushBuild key (some { b with
        deleting := true
        generation := b.generation + 1
        resourceVersion := w.clock }))
  | buildGone {key : Key} {b : BuildObject} : w.build key = some b → b.finalizer = false →
      Occurs w (.deleteBuild key) (w.pushBuild key none)
  | jobCreated {name : String} {annotations : Option Key} {status : JobStatus} : w.job name = none →
      Occurs w (.createJob name annotations status)
        (w.pushJob name (some ⟨w.clock, annotations, status⟩))
  | jobDeleted {name : String} {job : Job} : w.job name = some job →
      Occurs w (.deleteJob name) (w.pushJob name none)
  | jobStatus {name : String} {job : Job} {status : JobStatus} : w.job name = some job →
      Occurs w (.setJobStatus name status) (w.pushJob name (some { job with status := status }))

/-- The executable events are those of the relation. -/
theorem event_occurs {e : Event} (he : w.event e = some w') : Occurs w e w' := by
  cases e with
  | createBuild key spec timeoutSeconds =>
    simp only [World.event] at he
    split at he
    · cases he
    rename_i hn
    cases he
    exact .buildCreated hn
  | deleteBuild key =>
    simp only [World.event] at he
    split at he
    · cases he
    rename_i b hb
    cases he
    split
    · rename_i hf
      exact .buildMarked hb hf
    · rename_i hf
      exact .buildGone hb (by simpa using hf)
  | createJob name annotations status =>
    simp only [World.event] at he
    split at he
    · cases he
    rename_i hn
    cases he
    exact .jobCreated hn
  | deleteJob name =>
    simp only [World.event] at he
    split at he
    · cases he
    rename_i job hj
    cases he
    exact .jobDeleted hj
  | setJobStatus name status =>
    simp only [World.event] at he
    split at he
    · cases he
    rename_i job hj
    cases he
    exact .jobStatus hj

end Logs

section Reads

variable {hash : String → String} {w w' : World} {key : Key}
variable {b : BuildObject}

theorem exec_getBuild (h : (machine hash).exec (.getBuild key) w (.found b) w') :
    w' = w ∧ some b ∈ w.buildLog key := by
  obtain ⟨_ | lag, hk⟩ := h
  · cases hk
  obtain ⟨_, hr, heq⟩ := Option.map_eq_some_iff.mp hk
  cases heq
  exact ⟨rfl, lagged_found hr⟩

variable {job : Job}

theorem exec_getJob {why : CachedRead}
    (h : (machine hash).exec (.getJob why key) w (.found job) w') :
    w' = w ∧ some job ∈ w.jobLogOf hash key := by
  obtain ⟨_ | lag, hk⟩ := h
  · cases hk
  obtain ⟨_, hr, heq⟩ := Option.map_eq_some_iff.mp hk
  cases heq
  exact ⟨rfl, lagged_found hr⟩

variable {why : LiveRead}

theorem exec_readJob {x : GetReply Job} (h : (machine hash).exec (.readJob why key) w x w') :
    w' = w ∧ (x = .error ∨ x = current (w.jobOf hash key)) := by
  obtain ⟨_ | _, hk⟩ := h
  · cases hk
    exact ⟨rfl, .inr rfl⟩
  · cases hk
    exact ⟨rfl, .inl rfl⟩

theorem exec_readJob_found (h : (machine hash).exec (.readJob why key) w (.found job) w') :
    w' = w ∧ w.jobOf hash key = some job := by
  obtain ⟨rfl, hx | hx⟩ := exec_readJob h
  · cases hx
  cases hj : w'.jobOf hash key with
  | none =>
    rw [hj] at hx
    cases hx
  | some job' =>
    rw [hj] at hx
    cases hx
    exact ⟨rfl, rfl⟩

theorem exec_readJob_notFound (h : (machine hash).exec (.readJob why key) w .notFound w') :
    w' = w ∧ w.jobOf hash key = none := by
  obtain ⟨rfl, hx | hx⟩ := exec_readJob h
  · cases hx
  cases hj : w'.jobOf hash key with
  | none => exact ⟨rfl, rfl⟩
  | some job =>
    rw [hj] at hx
    cases hx

/-- The object that a successful update hands back is the stored one. -/
theorem exec_updateBuild {new : BuildObject}
    (h : (machine hash).exec (.updateBuild b) w (some new) w') :
    ∃ cur, w.build b.key = some cur ∧ cur.resourceVersion = b.resourceVersion ∧
      new = { cur with finalizer := b.finalizer, resourceVersion := w.clock } ∧
      w' = w.pushBuild b.key (if cur.deleting ∧ ¬ b.finalizer then none else some new) := by
  obtain ⟨_ | _ | _, hk⟩ := h
  · have hr : (w.updateBuild b) = (some new, w') := Option.some.inj hk
    unfold World.updateBuild at hr
    split at hr
    · cases hr
    rename_i cur hc
    split at hr
    · cases hr
    rename_i hv
    rw [ne_eq, not_not] at hv
    cases hr
    exact ⟨cur, hc, hv, rfl, rfl⟩
  · cases hk
  · cases hk

theorem exec_deleteJob (h : (machine hash).exec (.deleteJob key) w true w') :
    w'.jobOf hash key = none := by
  obtain ⟨_ | _ | _, hk⟩ := h
  · cases hk
    unfold World.deleteJob
    split
    · assumption
    · exact pushJob_job (w := w) none
  · cases hk
  · cases hk

theorem exec_createJob {features : List Feature}
    (h : (machine hash).exec (.createJob features b) w (.created job) w') :
    job.annotations = some b.key ∧ some job ∈ w'.jobLogOf hash b.key := by
  obtain ⟨_ | _ | _, hk⟩ := h
  · have hr : w.createJob hash features b = (.created job, w') := Option.some.inj hk
    unfold World.createJob at hr
    split at hr
    · cases hr
    · cases hr
      exact ⟨rfl, by simp [World.jobLogOf]⟩
  · cases hk
  · cases hk

end Reads

section Sample

def sampleHash (_ : String) : String := "00000000"

def sampleKey : Key := ⟨"orkano-apps", "web-1"⟩

def sampleSpec : BuildSpec :=
  ⟨"web", "c0ffee", ⟨some ⟨"acme/web", "main"⟩, none, none, ""⟩, ⟨.dockerfile, none, none, none⟩⟩

def sampleReconciler : Reconciler := ⟨[], fun _ _ => .ok "registry/web:c0ffee", fun _ _ => none⟩

/-- Fresh reads, writes that succeed, and a digest that resolves. -/
def freshPick : (c : Call) → World → c.Choice
  | .getBuild _, _ | .getJob _ _, _ => some 0
  | .readJob _ _, _ => false
  | .updateBuild _, _ | .updateStatus _, _ | .createJob _ _, _ | .deleteJob _, _ => none
  | .listPods _, _ => some []
  | .resolveDigest _, _ => .ok "registry/web@sha256:c0ffee"

def World.afterEvent (w : World) (e : Event) : World := (w.event e).getD w

variable {τ : Type} {ok : World → Event → Prop}

theorem steps_event [DecidableEq τ] {M : System apiServer World τ Errors}
    (hM : M.env = Happens ok) {w : World} {e : Event} (hok : ok w e) (he : (w.event e).isSome) :
    M.Steps (Config.idle w) (Config.idle (w.afterEvent e)) := by
  obtain ⟨w', hw'⟩ := Option.isSome_iff_exists.mp he
  refine .single (.env ?_)
  rw [hM]
  exact ⟨e, hok, by rw [World.afterEvent, hw', Option.getD_some]⟩

theorem steps_reconcile {S : Type} [DecidableEq τ] {M : System apiServer S τ Errors} {t : τ}
    {G : Machine apiServer S} {pick : (c : Call) → S → G.Choice c} {r : Reconciler} {w : S}
    (hM : M.starts t (reconcile sampleHash r sampleKey))
    (hG : ∀ c w x w', G.exec c w x w' → M.exec t c w x w')
    (h : (G.simulate pick (reconcile sampleHash r sampleKey) w).isSome) :
    M.Steps (Config.idle w) (Config.idle (G.after pick (reconcile sampleHash r sampleKey) w)) := by
  obtain ⟨out, ho⟩ := Option.isSome_iff_exists.mp h
  have he := congrArg (Option.map Prod.fst) ho
  exact System.steps_idle_of_runs hM ((G.runs_after he).mono hG)

def createdWorld : World := World.empty.afterEvent (.createBuild sampleKey sampleSpec 0)

theorem steps_createdWorld [DecidableEq τ] {M : System apiServer World τ Errors}
    (hM : M.env = Happens ok) (hok : ok World.empty (.createBuild sampleKey sampleSpec 0)) :
    M.Steps (Config.idle World.empty) (Config.idle createdWorld) :=
  steps_event hM hok (by decide +kernel)

def laggingPick (lag : ℕ) : (c : Call) → World → c.Choice
  | .getJob _ _, _ => some lag
  | c, w => freshPick c w

/-- A status write that does not arrive, as when the operator dies before it. -/
def lostStatusPick : (c : Call) → World → c.Choice
  | .updateStatus _, _ => some .before
  | c, w => freshPick c w

def plainStarted : World :=
  (machine sampleHash).after freshPick (reconcile sampleHash sampleReconciler sampleKey) createdWorld

theorem steps_plainStarted : (workers sampleHash fun _ _ => True).Steps (Config.idle World.empty)
    (Config.idle plainStarted) :=
  (steps_createdWorld rfl trivial).trans
    (steps_reconcile (t := 0) (w := createdWorld) ⟨_, _, rfl⟩ (fun _ _ _ _ h => h) (by decide +kernel))

def completeStatus : JobStatus := ⟨some 1, some 2, 0, none, true⟩

end Sample

end Orkano.Operator.BuildController
