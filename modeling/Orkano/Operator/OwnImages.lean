import Orkano.Interleave.Parallel
import Orkano.Operator.AppController.Rollout
import Orkano.Operator.BuildController.Revision
import Orkano.Operator.ImageReference

/-!
Which images run. The Build controller stores the resolved reference in a Build's status, the App
controller takes it over into an App's status and its Deployment. Reads may be stale, and
Deployments are open to everybody.
-/
namespace Orkano.Operator.OwnImages

open Interleave Program ImageReference List
open BuildController (Key BuildObject Reconciler Answers Stored)
open AppController (AppObject AppStatus)

structure Container where
  name : String
  image : String
deriving DecidableEq, Repr

inductive Owner where
  | nobody
  | app
  | other
deriving DecidableEq, Repr

structure Deployment where
  owner : Owner
  containers : List Container
deriving DecidableEq, Repr

/-- The log of an App holds its states, newest first, with `none` for its absence;
`rendered` lists what was written into the Deployment of each App. -/
structure Cluster where
  base : BuildController.World
  appLog : Key → List (Option AppObject)
  deployments : Key → Option Deployment
  rendered : List (Key × List Container)
  clock : ℕ

def Cluster.empty : Cluster := ⟨.empty, fun _ => [], fun _ => none, [], 0⟩

def containerName : String := "app"

/-- The containers that `mutateDeployment` leaves. -/
def mutateDeployment (app : AppObject) (containers : List Container) : List Container :=
  match containers with
  | [container] =>
    if container.name ≠ containerName then [⟨containerName, app.status.image⟩]
    else [{ container with image := app.status.image }]
  | _ => [⟨containerName, app.status.image⟩]

namespace Cluster

def app (s : Cluster) (key : Key) : Option AppObject := (s.appLog key).head?.join

def pushApp (s : Cluster) (key : Key) (o : Option AppObject) : Cluster :=
  { s with appLog := Function.update s.appLog key (o :: s.appLog key), clock := s.clock + 1 }

def updateStatus (s : Cluster) (key : Key) (app : AppObject) : Bool × Cluster :=
  match s.app key with
  | none => (false, s)
  | some cur =>
    if cur.resourceVersion ≠ app.resourceVersion then (false, s)
    else (true, s.pushApp key (some { cur with
      status := app.status
      origin := app.origin
      resourceVersion := s.clock }))

def render (s : Cluster) (key : Key) (containers : List Container) : Cluster :=
  { s with
    deployments := Function.update s.deployments key (some ⟨.app, containers⟩)
    rendered := (key, containers) :: s.rendered }

/-- `CreateOrUpdate` of the App's Deployment; one that is not the App's own is refused. -/
def applyDeployment (s : Cluster) (key : Key) (app : AppObject) : Option String × Cluster :=
  match s.deployments key with
  | none => (none, s.render key (mutateDeployment app []))
  | some deploy =>
    match deploy.owner with
    | .nobody => (some ("existing Deployment " ++ key.ns ++ "/" ++ key.name ++
        " is not managed by Orkano; rename the App or delete the Deployment"), s)
    | .app => (none, s.render key (mutateDeployment app deploy.containers))
    | .other => (some ("Object " ++ key.ns ++ "/" ++ key.name ++ " is already owned"), s)

/-- The Build as a list shows it, with any time of creation. -/
def shows (o : BuildObject) (b : Build) : Bool :=
  b.ns = o.key.ns && b.name = o.key.name && b.spec = o.spec && b.phase = o.status.phase &&
    b.image = o.status.image

/-- A cached list holds a state that each Build in it was once in. -/
def lists (s : Cluster) (builds : List Build) : Bool :=
  builds.all fun b => (s.base.buildLog ⟨b.ns, b.name⟩).any fun o => o.any (shows · b)

end Cluster

/-- How each answer may turn out. A read of the App picks how many states it lags behind,
and a list of Builds shows any states of theirs. -/
@[reducible] def Choice : AppController.Call → Type
  | .getApp => Except String ℕ
  | .listBuilds => Option (List Build)
  | .applyDeployment _ => AppController.DeployChoice
  | .getService => AppController.Lookup Bool
  | .deleteService => Option String
  | .applyService => AppController.Applied Unit
  | .updateStatus _ => Option Fault

def lagged (log : List (Option AppObject)) (lag : ℕ) : Option (AppController.Lookup AppObject) :=
  ((log ++ [none])[lag]?).map fun o => o.elim .missing .found

def answer (key : Key) : (c : AppController.Call) → Choice c → Cluster → Option (c.Reply × Cluster)
  | .getApp, .error message, s => some (.failed message, s)
  | .getApp, .ok lag, s => (lagged (s.appLog key) lag).map (·, s)
  | .listBuilds, none, s => some (none, s)
  | .listBuilds, some builds, s => if s.lists builds then some (some builds, s) else none
  | .applyDeployment app, .applied available, s =>
    match s.applyDeployment key app with
    | (some message, s') => some (.failed message, s')
    | (none, s') => some (.applied available, s')
  | .applyDeployment _, .conflict, s => some (.conflict, s)
  | .applyDeployment _, .failed message .before, s => some (.failed message, s)
  | .applyDeployment app, .failed message .after, s =>
    some (.failed message, (s.applyDeployment key app).2)
  | .getService, reply, s => some (reply, s)
  | .deleteService, reply, s => some (reply, s)
  | .applyService, reply, s => some (reply, s)
  | .updateStatus app, none, s => some (s.updateStatus key app)
  | .updateStatus _, some .before, s => some (false, s)
  | .updateStatus app, some .after, s => some (false, (s.updateStatus key app).2)

/-- The API server, for the reconciles of one App. -/
def appMachine (key : Key) : Machine AppController.apiServer Cluster := ⟨Choice, answer key⟩

inductive Worker where
  | build (n : ℕ)
  | app (key : Key) (n : ℕ)
deriving DecidableEq

@[reducible] def apiServer : Interface := BuildController.apiServer.sum AppController.apiServer

/-- References are resolved by the resolver, whatever it meets. -/
def resolving : Answers := ⟨True, fun ref image => ∃ S, resolveDigest S ref = .ok image⟩

def exec (hash : String → String) : Worker → (c : apiServer.Call) → Cluster → apiServer.Reply c →
    Cluster → Prop
  | .build _, .inl c, s, x, s' => resolving.fits c x ∧
      (BuildController.machine hash).exec c s.base x s'.base ∧ s' = { s with base := s'.base }
  | .app key _, .inr c, s, x, s' => (appMachine key).exec c s x s'
  | .build _, .inr _, _, _, _ | .app _ _, .inl _, _, _, _ => False

inductive Event where
  | build (e : BuildController.Event)
  | createApp (key : Key) (type : Option AppController.WorkloadType) (replicas : Option ℤ)
  | changeApp (key : Key) (type : Option AppController.WorkloadType) (replicas : Option ℤ)
      (deleting : Bool)
  | removeApp (key : Key)
  | setDeployment (key : Key) (o : Option Deployment)

def Event.Admitted : Event → Prop
  | .build (.createBuild _ spec _) => Admissible spec
  | _ => True

def Cluster.event (s : Cluster) : Event → Option Cluster
  | .build e => (s.base.event e).map fun base => { s with base := base }
  | .createApp key type replicas =>
    match s.app key with
    | some _ => none
    | none => some (s.pushApp key
        (some ⟨key.ns, key.name, s.clock, 1, false, type, replicas, .empty, ⟨none, none⟩⟩))
  | .changeApp key type replicas deleting =>
    match s.app key with
    | none => none
    | some app => some (s.pushApp key (some { app with
        resourceVersion := s.clock
        generation := app.generation + 1
        deleting := deleting
        type := type
        replicas := replicas }))
  | .removeApp key => some (s.pushApp key none)
  | .setDeployment key o => some { s with deployments := Function.update s.deployments key o }

/-- A reconciler of the Build controller that composes as `buildjob` does. -/
def Composes (sha256 : String → List UInt8) (r : Reconciler) : Prop :=
  ∃ gitBaseURL, ∀ key spec,
    r.compose key spec = (compose sha256 gitBaseURL key.ns key.name spec).map Invocation.imageRef

def operators (hash : String → String) (sha256 : String → List UInt8) :
    System apiServer Cluster Worker Unit where
  exec := exec hash
  env s s' := ∃ e : Event, e.Admitted ∧ s.event e = some s'
  restart s s' := s' = s
  starts
    | .build _, p => ∃ r key, Composes sha256 r ∧ p = (BuildController.reconcile hash r key).forget.inl
    | .app _ _, p => p = AppController.reconcile.forget.inr

section Images

/-- An image that a Build of the App has, or had, in its status. -/
def Traced (w : BuildController.World) (key : Key) (image : String) : Prop :=
  ∃ k b, some b ∈ w.buildLog k ∧ b.key.ns = key.ns ∧ b.spec.appName = key.name ∧
    b.status.image = image

def Stamped (_ : Key) (spec : BuildSpec) (status : BuildController.BuildStatus) : Prop :=
  Admissible spec ∧ (status.image = "" ∨ OwnImage spec.appName status.image)

structure Inv (s : Cluster) : Prop where
  builds : Stored Stamped s.base
  named : ∀ {key a}, some a ∈ s.appLog key → a.ns = key.ns ∧ a.name = key.name
  apps : ∀ {key a}, some a ∈ s.appLog key → a.status.image ≠ "" →
    Traced s.base key a.status.image
  rendered : ∀ e ∈ s.rendered, ∀ container ∈ e.2, container.image ≠ "" ∧
    Traced s.base e.1 container.image

variable {hash : String → String} {sha256 : String → List UInt8} {s s' : Cluster} {key : Key}
variable {w w' : BuildController.World}
variable {image : String}

theorem Traced.grows (h : Traced w key image) (hg : BuildController.Grows w w') :
    Traced w' key image := by
  obtain ⟨k, b, hb, hr⟩ := h
  exact ⟨k, b, hg.builds hb, hr⟩

theorem inv_empty : Inv .empty where
  builds := BuildController.stored_empty
  named h := (not_mem_nil h).elim
  apps h := (not_mem_nil h).elim
  rendered _ he := (not_mem_nil he).elim

theorem Inv.base (h : Inv s) (hb : Stored Stamped w)
    (hg : BuildController.Grows s.base w) : Inv { s with base := w } where
  builds := hb
  named := h.named
  apps ha hne := (h.apps ha hne).grows hg
  rendered e he container hc := by
    obtain ⟨hne, ht⟩ := h.rendered e he container hc
    exact ⟨hne, ht.grows hg⟩

variable {o : Option AppObject} {a : AppObject}

theorem mem_pushApp {key' : Key} (h : some a ∈ (s.pushApp key o).appLog key') :
    key' = key ∧ o = some a ∨ some a ∈ s.appLog key' := by
  by_cases hk : key' = key
  · subst hk
    simp only [Cluster.pushApp, Function.update_self, mem_cons] at h
    rcases h with h | h
    · exact .inl ⟨rfl, h.symm⟩
    · exact .inr h
  · simp only [Cluster.pushApp, Function.update_of_ne hk] at h
    exact .inr h

theorem Inv.push (h : Inv s) (ho : ∀ a, o = some a → (a.ns = key.ns ∧ a.name = key.name) ∧
      (a.status.image ≠ "" → Traced s.base key a.status.image)) : Inv (s.pushApp key o) where
  builds := h.builds
  named ha := by
    rcases mem_pushApp ha with ⟨rfl, hn⟩ | hold
    · exact (ho _ hn).1
    · exact h.named hold
  apps ha hne := by
    rcases mem_pushApp ha with ⟨rfl, hn⟩ | hold
    · exact (ho _ hn).2 hne
    · exact h.apps hold hne
  rendered := h.rendered

theorem mem_appLog_of_app (h : s.app key = some a) : some a ∈ s.appLog key := by
  unfold Cluster.app at h
  rw [Option.join_eq_some_iff] at h
  exact mem_of_mem_head? h

theorem image_of_mem_mutateDeployment {app : AppObject} {containers : List Container}
    {container : Container} (h : container ∈ mutateDeployment app containers) :
    container.image = app.status.image := by
  unfold mutateDeployment at h
  repeat' split at h
  all_goals
    rw [mem_singleton] at h
    rw [h]

inductive Write (s : Cluster) (key : Key) : AppController.Call → Cluster → Prop where
  | same {c : AppController.Call} : Write s key c s
  | rendered {app : AppObject} {containers : List Container} :
      Write s key (.applyDeployment app) (s.render key (mutateDeployment app containers))
  | status {app cur : AppObject} : s.app key = some cur →
      Write s key (.updateStatus app) (s.pushApp key (some { cur with
        status := app.status
        origin := app.origin
        resourceVersion := s.clock }))

theorem write_applyDeployment (s : Cluster) (key : Key) (app : AppObject) :
    Write s key (.applyDeployment app) (s.applyDeployment key app).2 := by
  unfold Cluster.applyDeployment
  repeat' split
  all_goals first | exact .same | exact .rendered

theorem write_updateStatus (s : Cluster) (key : Key) (app : AppObject) :
    Write s key (.updateStatus app) (s.updateStatus key app).2 := by
  unfold Cluster.updateStatus
  split
  · exact .same
  rename_i cur hc
  split
  · exact .same
  · exact .status hc

variable {c : AppController.Call}

/-- What a call of the App's reconcile writes. -/
theorem exec_write {x : c.Reply} (h : (appMachine key).exec c s x s') : Write s key c s' := by
  obtain ⟨k, hk⟩ := h
  cases c with
  | getApp =>
    cases k with
    | error message =>
      cases hk
      exact .same
    | ok lag =>
      obtain ⟨_, _, heq⟩ := Option.map_eq_some_iff.mp hk
      cases heq
      exact .same
  | listBuilds =>
    cases k with
    | none =>
      cases hk
      exact .same
    | some builds =>
      simp only [appMachine, answer] at hk
      split at hk <;> cases hk
      exact .same
  | applyDeployment app =>
    have hw := write_applyDeployment s key app
    cases k with
    | applied available =>
      simp only [appMachine, answer] at hk
      split at hk
      all_goals
        rename_i heq
        rw [heq] at hw
        cases hk
        exact hw
    | conflict =>
      cases hk
      exact .same
    | failed message fault =>
      cases fault <;> cases hk
      · exact .same
      · exact hw
  | updateStatus app =>
    have hw := write_updateStatus s key app
    obtain _ | _ | _ := k
    · have hs' : (s.updateStatus key app).2 = s' := congrArg Prod.snd (Option.some.inj hk)
      exact hs' ▸ hw
    · cases hk
      exact .same
    · cases hk
      exact hw
  | _ =>
    cases hk
    exact .same

def Bears (image : String) : AppController.Call → Prop
  | .applyDeployment app => image ≠ "" ∧ app.status.image = image
  | .updateStatus app => app.status.image = image
  | _ => True

/-- An image of the App's own Builds may be written. -/
theorem Inv.write (h : Inv s) (hc : Bears image c) (hi : image ≠ "" → Traced s.base key image)
    (hw : Write s key c s') : Inv s' ∧ s'.base = s.base := by
  cases hw with
  | same => exact ⟨h, rfl⟩
  | rendered =>
    refine ⟨⟨h.builds, h.named, h.apps, ?_⟩, rfl⟩
    intro e he container hcn
    rcases mem_cons.mp he with rfl | he
    · have hs := (image_of_mem_mutateDeployment hcn).trans hc.2
      rw [hs]
      exact ⟨hc.1, hi hc.1⟩
    · exact h.rendered e he container hcn
  | status hcr =>
    refine ⟨h.push ?_, rfl⟩
    rintro _ ⟨⟩
    have hn := h.named (mem_appLog_of_app hcr)
    refine ⟨hn, fun hne => ?_⟩
    have hs : image = _ := Eq.symm hc
    rw [hs] at hi
    exact hi hne

/-- What others do, as far as it is admitted, forges no image. -/
theorem Inv.event {e : Event} (h : Inv s) (had : e.Admitted) (he : s.event e = some s') :
    Inv s' ∧ BuildController.Grows s.base s'.base := by
  have hr := BuildController.Grows.refl s.base
  cases e with
  | build e =>
    obtain ⟨w, hw, rfl⟩ := Option.map_eq_some_iff.mp he
    have ho := BuildController.event_occurs hw
    have hg := (BuildController.event_logInv h.builds.logInv ho).2
    refine ⟨h.base (BuildController.stored_event h.builds ?_ ho) hg, hg⟩
    rintro key spec timeout rfl
    exact ⟨had, .inl rfl⟩
  | createApp key type replicas =>
    simp only [Cluster.event] at he
    split at he <;> cases he
    refine ⟨h.push ?_, hr⟩
    rintro _ ⟨⟩
    exact ⟨⟨rfl, rfl⟩, fun hne => absurd rfl hne⟩
  | changeApp key type replicas deleting =>
    simp only [Cluster.event] at he
    split at he <;> cases he
    rename_i a ha
    refine ⟨h.push ?_, hr⟩
    rintro _ ⟨⟩
    have hn := h.named (mem_appLog_of_app ha)
    have hi := h.apps (mem_appLog_of_app ha)
    exact ⟨hn, hi⟩
  | removeApp key =>
    cases he
    refine ⟨h.push ?_, hr⟩
    rintro _ ⟨⟩
  | setDeployment key o =>
    cases he
    exact ⟨⟨h.builds, h.named, h.apps, h.rendered⟩, hr⟩

end Images

section Builds

variable {hash : String → String} {sha256 : String → List UInt8} {s s' : Cluster} {r : Reconciler}

/-- Whatever a reconcile makes of a status, an image in it is one of the App. -/
theorem kept_stamped (hr : Composes sha256 r) : BuildController.Kept resolving r Stamped := by
  intro b0 st _ hold hrv
  obtain ⟨hsp, him⟩ := hold
  refine ⟨hsp, ?_⟩
  cases hrv with
  | same _ hs _ _ | refused _ hs _ _ | unlisted _ _ hs _ | failed _ hs _
  | waiting _ hs _ _ => rwa [hs]
  | succeeded hp _ _ =>
    obtain ⟨ref, hrf, S, hS⟩ := hp
    obtain ⟨gitBaseURL, hc⟩ := hr
    rw [hc] at hrf
    cases hi : compose sha256 gitBaseURL b0.key.ns b0.key.name b0.spec with
    | error e =>
      rw [hi] at hrf
      cases hrf
    | ok inv =>
      rw [hi] at hrf
      cases hrf
      exact .inr (ownImage_of_resolveDigest hsp hi hS)

/-- Builds are only revised, so their logs only grow. -/
def discipline : Discipline Cluster Worker where
  inv := Inv
  evolves _ _ := True
  rely _ s s' := BuildController.Grows s.base s'.base
  evolves_refl _ := trivial
  evolves_trans := fun _ _ => trivial
  rely_refl _ s := BuildController.Grows.refl s.base
  rely_trans := fun _ _ _ _ h h' => h.trans h'

def unmarked (_ : BuildObject) (_ : BuildController.Job) (_ : Cluster) : Prop := True

theorem sound_base {c : BuildController.Call}
    (h : BuildController.Sound resolving r Cluster.base unmarked c s) :
    BuildController.Sound resolving r id BuildController.unmarked c s.base := by
  cases c with
  | updateStatus b =>
    obtain ⟨b0, seen, hb, hr, _⟩ := h
    exact ⟨b0, seen, hb, hr, fun _ _ => trivial⟩
  | _ => trivial

/-- The Build controller is one more thread of the discipline. -/
theorem revisionWalk (hr : Composes sha256 r) (n : ℕ) :
    BuildController.RevisionWalk hash resolving r Cluster.base unmarked
      (fun t c s x s' => exec hash t (.inl c) s x s') discipline (.build n) where
  grows := id
  logInv h := h.builds.logInv
  machine h := h.2.1
  fits h := h.1
  marks _ _ _ _ _ := trivial
  kept _ _ _ := trivial
  lasts _ _ := trivial
  allowed := by
    rintro c s x s' hi hsn ⟨-, he, heq⟩
    have hw := BuildController.exec_write he
    have hg := (BuildController.write_logInv hi.builds.logInv hw).2
    have hs := BuildController.stored_write hi.builds (kept_stamped hr) (sound_base hsn)
      hw
    rw [heq]
    exact ⟨hi.base hs hg, trivial, fun _ _ => hg⟩

end Builds

section Apps

variable {hash : String → String} {s s' : Cluster} {key : Key} {app : AppObject}
variable {before : AppStatus}

theorem only_updateStatus :
    (AppController.updateStatus app before).Only (Bears app.status.image) := by
  unfold AppController.updateStatus
  dsimp only
  split
  · exact only_done _
  simp only [AppController.call, perform_bind, only_call]
  refine ⟨rfl, fun x => ?_⟩
  cases x <;> exact only_done _

theorem only_failReady {reason : AppController.Reason} {message : String}
    {failure : AppController.Failure} :
    (AppController.failReady app before reason message failure).Only (Bears app.status.image) := by
  have hs : (AppController.setReady app false reason message).status.image = app.status.image :=
    rfl
  apply only_bind
  · rw [← hs]
    exact only_updateStatus
  · intro _
    exact only_done _

theorem only_ensureService {image : String} :
    (AppController.ensureService app).Only (Bears image) := by
  unfold AppController.ensureService
  split <;> simp only [AppController.call, perform_bind, only_call]
  · refine ⟨trivial, fun x => ?_⟩
    cases x with
    | found controlled =>
      cases controlled
      · exact only_done _
      · refine ⟨trivial, fun y => ?_⟩
        cases y <;> exact only_done _
    | _ => exact only_done _
  · refine ⟨trivial, fun x => ?_⟩
    cases x <;> exact only_done _

/-- A rollout bears the status' image and no other. -/
theorem only_rollOut : (AppController.rollOut app before).Only (Bears app.status.image) := by
  unfold AppController.rollOut
  split
  · have hs : ∀ reason message,
        app.status.image = (AppController.setReady app false reason message).status.image :=
      fun _ _ => rfl
    rw [hs]
    exact only_updateStatus
  rename_i hne
  split
  · exact only_failReady
  simp only [AppController.call, perform_bind, only_call]
  refine ⟨⟨hne, rfl⟩, fun x => ?_⟩
  cases x with
  | conflict => exact only_done _
  | failed message => exact only_failReady
  | applied available =>
    apply only_bind only_ensureService
    rintro (_ | _ | message)
    · have hs : (AppController.reportReplicas app available).status.image =
          app.status.image := by
        unfold AppController.reportReplicas
        dsimp only
        split <;> rfl
      rw [← hs]
      exact only_updateStatus
    · exact only_done _
    · exact only_failReady

/-- The image after a look at the Builds: the one before, or that of a Build of the App. -/
theorem observe_image (builds : List Build) (app : AppObject) :
    (AppController.observe builds app).status.image = app.status.image ∨
      ∃ b ∈ builds, b.ns = app.ns ∧ b.spec.appName = app.name ∧
        b.image = (AppController.observe builds app).status.image := by
  unfold AppController.observe observeBuilds
  cases hs : sortBuilds (buildsOf builds app.ns app.name) with
  | nil => exact .inl rfl
  | cons newest rest =>
    cases hf : (newest :: rest).find? fun b => b.phase = .succeeded && b.image ≠ "" with
    | none => exact .inl (by simp only [hf, Option.map_none, Option.getD_none])
    | some b =>
      have hm : b ∈ sortBuilds (buildsOf builds app.ns app.name) :=
        hs ▸ mem_of_find?_eq_some hf
      rw [sortBuilds, mem_mergeSort, buildsOf, mem_filter, decide_eq_true_iff] at hm
      refine .inr ⟨b, hm.1, hm.2.1, hm.2.2, ?_⟩
      simp only [hf, Option.map_some, Option.getD_some]

theorem exec_getApp {x : AppController.Lookup AppObject}
    (h : (appMachine key).exec .getApp s x s') :
    s' = s ∧ ∀ a, x = .found a → some a ∈ s.appLog key := by
  obtain ⟨k, hk⟩ := h
  cases k with
  | error message =>
    cases hk
    exact ⟨rfl, by simp⟩
  | ok lag =>
    obtain ⟨y, hy, heq⟩ := Option.map_eq_some_iff.mp hk
    cases heq
    refine ⟨rfl, ?_⟩
    rintro a rfl
    obtain ⟨o, ho, hf⟩ := Option.map_eq_some_iff.mp hy
    have hm : o ∈ s.appLog key ++ [none] := mem_of_getElem? ho
    cases o with
    | none => cases hf
    | some a' =>
      cases hf
      simpa using hm

theorem exec_listBuilds {x : Option (List Build)} (h : (appMachine key).exec .listBuilds s x s') :
    s' = s ∧ ∀ builds b, x = some builds → b ∈ builds →
      ∃ k o, some o ∈ s.base.buildLog k ∧ Cluster.shows o b = true := by
  obtain ⟨k, hk⟩ := h
  cases k with
  | none =>
    cases hk
    exact ⟨rfl, by simp⟩
  | some builds =>
    simp only [appMachine, answer] at hk
    split at hk <;> cases hk
    rename_i hl
    refine ⟨rfl, ?_⟩
    rintro _ b ⟨⟩ hb
    obtain ⟨o, ho, hs⟩ := any_eq_true.mp (all_eq_true.mp hl b hb)
    obtain ⟨o', rfl, hb'⟩ := (Option.any_eq_true _ _).mp hs
    exact ⟨_, o', ho, hb'⟩

/-- The image that a reconcile goes on with is one of a Build of the App. -/
theorem traced_observe {builds : List Build} (hn : app.ns = key.ns ∧ app.name = key.name)
    (ha : app.status.image ≠ "" → Traced s.base key app.status.image)
    (hbl : ∀ b ∈ builds, ∃ k o, some o ∈ s.base.buildLog k ∧ Cluster.shows o b = true)
    (hne : (AppController.observe builds app).status.image ≠ "") :
    Traced s.base key (AppController.observe builds app).status.image := by
  rcases observe_image builds app with hsm | ⟨b, hb, hns, hnm, hi⟩
  · rw [hsm] at hne ⊢
    exact ha hne
  obtain ⟨k, o, ho, hs⟩ := hbl b hb
  simp only [Cluster.shows, Bool.and_eq_true, decide_eq_true_eq] at hs
  obtain ⟨⟨⟨⟨hns', -⟩, hsp⟩, -⟩, hi'⟩ := hs
  refine ⟨k, o, ho, ?_, ?_, ?_⟩
  · rw [← hns', hns, hn.1]
  · rw [← hsp, hnm, hn.2]
  · rw [← hi', hi]

theorem safe_rollOut {n : ℕ}
    (h : app.status.image ≠ "" → Traced s.base key app.status.image) :
    Safe (fun t c s x s' => exec hash t (.inr c) s x s') discipline (.app key n)
      (fun _ _ => True) (AppController.rollOut app before) s := by
  refine (safe_of_only_keeping (R := fun s : Cluster => app.status.image ≠ "" →
    Traced s.base key app.status.image) ?_ ?_ only_rollOut h).mono fun _ _ _ => trivial
  · intro c s x s' hc hin hi hx
    obtain ⟨hi', hb⟩ := hin.write hc hi (exec_write hx)
    refine ⟨⟨hi', trivial, fun _ _ => ?_⟩, ?_⟩
    · show BuildController.Grows s.base s'.base
      rw [hb]
      exact BuildController.Grows.refl s.base
    · rw [hb]
      exact hi
  · intro s s' hi hg hne
    exact (hi hne).grows hg

/-- A reconcile of an App rolls out an image of its own Builds only. -/
theorem safe_reconcile {n : ℕ} :
    Safe (fun t c s x s' => exec hash t (.inr c) s x s') discipline (.app key n)
      (fun _ _ => True) AppController.reconcile s := by
  have hs : ∀ {s : Cluster}, Inv s → Allowed discipline (.app key n) s s :=
    fun hi => ⟨hi, trivial, fun _ _ => BuildController.Grows.refl _⟩
  simp only [AppController.reconcile, AppController.call, perform_bind]
  intro s1 _ hi x s2 hx
  obtain ⟨rfl, hf⟩ := exec_getApp hx
  refine ⟨hs hi, ?_⟩
  cases x with
  | failed | missing => trivial
  | found app =>
    have hm := hf app rfl
    dsimp only
    split
    · trivial
    intro s3 hg hi' y s4 hy
    obtain ⟨rfl, hl⟩ := exec_listBuilds hy
    refine ⟨hs hi', ?_⟩
    cases y with
    | none => trivial
    | some builds =>
      apply safe_rollOut
      exact traced_observe (hi.named hm) (fun hne => (hi.apps hm hne).grows hg)
        (fun b hb => hl builds b rfl hb)

end Apps

section Runs

variable {hash : String → String} {sha256 : String → List UInt8}

/-- So do any number of reconciles of Apps and Builds at once. -/
theorem respects_operators :
    (operators hash sha256).Respects discipline fun _ _ _ => True where
  starts := by
    intro t p s hp _
    cases t with
    | build n =>
      obtain ⟨r, key, hr, rfl⟩ := hp
      exact safe_inl.mpr (safe_forget (revisionWalk hr n).safe_reconcile)
    | app key n =>
      obtain rfl := hp
      exact safe_inr.mpr (safe_forget safe_reconcile)
  lasts := fun _ _ _ _ _ _ => trivial
  env := by
    rintro s s' hi ⟨e, ha, he⟩
    obtain ⟨hi', hg⟩ := hi.event ha he
    exact ⟨hi', trivial, fun _ => hg⟩
  restart := by
    rintro s _ hi rfl
    exact ⟨hi, trivial⟩

/-- Every container image that is ever written into the Deployment of an App is on the
cluster's own registry, under the App's name and pinned by a digest, and is the image of
a Build of that App. -/
theorem only_own_images_run {c : Config apiServer Cluster Worker Unit}
    (hc : (operators hash sha256).Steps (Config.idle .empty) c) :
    ∀ e ∈ c.shared.rendered, ∀ container ∈ e.2,
      (∃ hex : String, hex.length = 64 ∧ hex.toList.all isLowerHex = true ∧
        container.image = registryHost ++ "/" ++ e.1.name ++ "@sha256:" ++ hex) ∧
      ∃ key b, some b ∈ c.shared.base.buildLog key ∧ b.key.ns = e.1.ns ∧
        b.spec.appName = e.1.name ∧ b.status.image = container.image := by
  have hinv : Inv c.shared :=
    (System.reachable_good respects_operators (System.good_idle inv_empty) hc).1.inv
  intro e he container hcontainer
  obtain ⟨hne, key, b, hb, hns, happ, himage⟩ := hinv.rendered e he container hcontainer
  refine ⟨?_, key, b, hb, hns, happ, himage⟩
  obtain ⟨-, hempty | hown⟩ := hinv.builds.holds hb
  · exact absurd (himage.symm.trans hempty) hne
  · rw [himage, happ] at hown
    exact hown

end Runs

section Sample

open BuildController (sampleHash sampleKey completeStatus)

def sampleSum (_ : String) : List UInt8 := [0xc0, 0xff, 0xee]

def sampleCommit : String := String.ofList (List.replicate 40 'c')

def sampleSpec : BuildSpec :=
  ⟨"web", sampleCommit, ⟨some ⟨"acme/web", "main"⟩, none, none, ""⟩, ⟨.dockerfile, none, none, none⟩⟩

def sampleHex : String := String.ofList (List.replicate 64 '0')

def sampleRegistry : Registry where
  bundle := .ok (some "certificate")
  parses _ := true
  refuses _ := none
  head _ := .ok ⟨200, "200 OK", "sha256:" ++ sampleHex⟩

def sampleReconciler : Reconciler where
  features := []
  compose key spec := (compose sampleSum "" key.ns key.name spec).map Invocation.imageRef
  render _ _ := none

def sampleApp : Key := ⟨"orkano-apps", "web"⟩

def samplePick (c : BuildController.Call) (s : Cluster) : c.Choice :=
  match c with
  | .resolveDigest ref => resolveDigest sampleRegistry ref
  | c => BuildController.freshPick c s.base

def sampleResolved : (c : BuildController.Call) → c.Reply → Bool
  | .resolveDigest ref, .ok image => resolveDigest sampleRegistry ref = .ok image
  | _, _ => true

def sampleServer : Machine BuildController.apiServer Cluster where
  Choice := BuildController.Call.Choice
  answer c k s := ((BuildController.answer sampleHash c k s.base).filter
    fun r => sampleResolved c r.1).map fun r => (r.1, { s with base := r.2 })

variable {s : Cluster}

theorem sampleServer_exec {c : BuildController.Call} {s' : Cluster} {x : c.Reply}
    (h : sampleServer.exec c s x s') : exec sampleHash (.build 0) (.inl c) s x s' := by
  obtain ⟨k, hk⟩ := h
  obtain ⟨⟨y, w⟩, hr, heq⟩ := Option.map_eq_some_iff.mp hk
  obtain ⟨ha, hrs⟩ := Option.filter_eq_some_iff.mp hr
  cases heq
  refine ⟨?_, ⟨k, ha⟩, rfl⟩
  cases c with
  | resolveDigest ref =>
    cases y with
    | error message => trivial
    | ok image => exact ⟨sampleRegistry, by simpa [sampleResolved] using hrs⟩
  | listPods key => cases y <;> trivial
  | _ => trivial

def sampleReconcile : Program BuildController.apiServer BuildController.Errors :=
  BuildController.reconcile sampleHash sampleReconciler sampleKey

theorem steps_event {s' : Cluster} {e : Event} (he : s.event e = some s') (ha : e.Admitted) :
    (operators sampleHash sampleSum).Steps (Config.idle s) (Config.idle s') :=
  .single (.env ⟨e, ha, he⟩)

theorem steps_built {out : BuildController.Errors × Cluster}
    (h : sampleServer.simulate samplePick sampleReconcile s = some out) :
    (operators sampleHash sampleSum).Steps (Config.idle s) (Config.idle out.2) := by
  have hr := (sampleServer.runs_of_simulate h).mono fun _ _ _ _ hx => sampleServer_exec hx
  have hs : (operators sampleHash sampleSum).starts (.build 0) sampleReconcile.forget.inl :=
    ⟨sampleReconciler, sampleKey, ⟨"", fun _ _ => rfl⟩, rfl⟩
  have hsm : Runs ((operators sampleHash sampleSum).exec (.build 0)) _ s () out.2 :=
    runs_inl (runs_forget hr)
  exact System.steps_idle_of_runs hs hsm

def appPick (builds : List Build) : (c : AppController.Call) → Cluster → Choice c
  | .getApp, _ => .ok 0
  | .listBuilds, _ => some builds
  | .applyDeployment _, _ => .applied 0
  | .getService, _ => .missing
  | .deleteService, _ => none
  | .applyService, _ => .applied ()
  | .updateStatus _, _ => none

theorem steps_rolledOut {builds : List Build} {out : Option AppController.Failure × Cluster}
    (h : (appMachine sampleApp).simulate (appPick builds) AppController.reconcile s = some out) :
    (operators sampleHash sampleSum).Steps (Config.idle s) (Config.idle out.2) := by
  have hr := (appMachine sampleApp).runs_of_simulate h
  have hs : (operators sampleHash sampleSum).starts (.app sampleApp 0)
      AppController.reconcile.forget.inr := rfl
  have hsm : Runs ((operators sampleHash sampleSum).exec (.app sampleApp 0)) _ s () out.2 :=
    runs_inr (runs_forget hr)
  exact System.steps_idle_of_runs hs hsm

def sampleImage : String := registryHost ++ "/" ++ "web" ++ "@sha256:" ++ sampleHex

/-- A Build is made for an App, its Job completes, and the App is rolled out. -/
def sampleRun : Option Cluster := do
  let named ← Cluster.empty.event (.createApp sampleApp none none)
  let created ← named.event (.build (.createBuild sampleKey sampleSpec 0))
  let started ← sampleServer.simulate samplePick sampleReconcile created
  let completed ← started.2.event (.build (.setJobStatus "web-1" completeStatus))
  let pushed ← sampleServer.simulate samplePick sampleReconcile completed
  let rolledOut ← (appMachine sampleApp).simulate
    (appPick [⟨"orkano-apps", "web-1", 0, sampleSpec, .succeeded, sampleImage⟩])
    AppController.reconcile pushed.2
  return rolledOut.2

theorem steps_sampleRun (h : sampleRun = some s) :
    (operators sampleHash sampleSum).Steps (Config.idle .empty) (Config.idle s) := by
  unfold sampleRun at h
  obtain ⟨named, hn, h⟩ := Option.bind_eq_some_iff.mp h
  obtain ⟨created, hcr, h⟩ := Option.bind_eq_some_iff.mp h
  obtain ⟨started, hs, h⟩ := Option.bind_eq_some_iff.mp h
  obtain ⟨completed, hc, h⟩ := Option.bind_eq_some_iff.mp h
  obtain ⟨pushed, hp, h⟩ := Option.bind_eq_some_iff.mp h
  obtain ⟨rolledOut, hro, h⟩ := Option.bind_eq_some_iff.mp h
  cases h
  have ha : Event.Admitted (.build (.createBuild sampleKey sampleSpec 0)) :=
    ⟨by decide, by decide, by decide⟩
  have hb := (steps_event hn trivial).trans (steps_event hcr ha)
  have hbl := (steps_built hs).trans (steps_event hc trivial)
  exact (hb.trans hbl).trans ((steps_built hp).trans (steps_rolledOut hro))

theorem sampleRun_rendered :
    sampleRun.map Cluster.rendered = some [(sampleApp, [⟨"app", sampleImage⟩])] := by
  decide +kernel

/-- The App runs the image of its Build. -/
theorem sample_app_runs_own_image : ∃ s : Cluster,
    (operators sampleHash sampleSum).Steps (Config.idle .empty) (Config.idle s) ∧
      s.rendered = [(sampleApp, [⟨"app", sampleImage⟩])] ∧
      ∃ key b, some b ∈ s.base.buildLog key ∧ b.key.ns = "orkano-apps" ∧
        b.spec.appName = "web" ∧ b.status.image = sampleImage := by
  obtain ⟨s, hs, hrendered⟩ := Option.map_eq_some_iff.mp sampleRun_rendered
  have hsteps := steps_sampleRun hs
  have hmem : (sampleApp, [⟨"app", sampleImage⟩]) ∈ s.rendered := by simp [hrendered]
  have hown := only_own_images_run hsteps _ hmem ⟨"app", sampleImage⟩ mem_cons_self
  exact ⟨s, hsteps, hrendered, hown.2⟩

end Sample

end Orkano.Operator.OwnImages
