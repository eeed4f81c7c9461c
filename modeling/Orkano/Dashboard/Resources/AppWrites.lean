import Orkano.Dashboard.Resources.Handlers
import Orkano.Interleave.Versioned

/-!
The handlers that write an App that exists. Each fetches the App, changes some of it and puts
all of it back under the version it fetched; so the frame of the write is the frame of the
change. Others may write the App at any time, and an update may be stored and yet fail.
-/
namespace Orkano.Dashboard.AppWrites

open Interleave Program Operator
open Resources (ApiError EnvVar EnvCalls writeK8sError envSecretName createOrUpdate reconcileEnvRefs)

inductive WorkloadType where
  | web
  | worker
deriving DecidableEq, Repr

structure ResourceRequests where
  cpu : Option String
  memory : Option String
deriving DecidableEq, Repr

structure AppSpec where
  source : Source
  build : BuildStrategy
  type : Option WorkloadType
  command : List String
  port : Option Int
  replicas : Option Int
  env : List EnvVar
  resources : Option ResourceRequests
  healthCheck : Option String
deriving DecidableEq, Repr

structure AppObject where
  labels : List (String × String)
  spec : AppSpec
deriving DecidableEq, Repr

/-- The schema's defaults, which the server fills in before it stores a spec. -/
def AppSpec.defaulted (spec : AppSpec) : AppSpec :=
  { spec with type := spec.type.or (some .web), replicas := spec.replicas.or (some 1) }

def appsNamespace : String := "orkano-apps"

/-- The part of an App that the feature gates look at. -/
def AppSpec.gated (spec : AppSpec) (name : String) : App :=
  ⟨appsNamespace, name, spec.source, spec.build⟩

theorem defaulted_defaulted (spec : AppSpec) : spec.defaulted.defaulted = spec.defaulted := by
  simp [AppSpec.defaulted]

theorem defaulted_of_same {spec : AppSpec} (spec' : AppSpec) (h : spec.defaulted = spec)
    (hty : spec'.type = spec.type) (hrp : spec'.replicas = spec.replicas) :
    spec'.defaulted = spec' := by
  have ht : spec.type.or (some .web) = spec.type := congrArg AppSpec.type h
  have hr : spec.replicas.or (some 1) = spec.replicas := congrArg AppSpec.replicas h
  simp only [AppSpec.defaulted, hty, hrp, ht, hr]
  rw [← hty, ← hrp]

section Handlers

inductive Call where
  | getApp
  | updateApp (resourceVersion : ℕ) (app : AppObject)
  | createSecret (name : String) (data : List (String × String))
  | updateSecret (name : String) (data : List (String × String))

@[reducible] def Call.Reply : Call → Type
  | .getApp => Except ApiError (ℕ × AppObject)
  | _ => Except ApiError Unit

abbrev appServer : Interface := ⟨Call, Call.Reply⟩

abbrev Prog := Program appServer

def call (c : Call) : Prog c.Reply := Program.perform (I := appServer) c

def putBack (resourceVersion : ℕ) (app : AppObject) (spec : AppSpec) : Prog Resources.Response := do
  match ← call (.updateApp resourceVersion { app with spec := spec }) with
  | .error e => return writeK8sError e
  | .ok _ => return ⟨200, ""⟩

/-- The types of the source and the build hold no lists and no quantities, so semantic
equality is equality. -/
def handleUpdateApp (spec : AppSpec) : Prog Resources.Response := do
  match ← call .getApp with
  | .error e => return writeK8sError e
  | .ok (version, app) =>
    if app.spec.source ≠ spec.source ∨ app.spec.build ≠ spec.build then
      return ⟨409, "source_update_required"⟩
    else putBack version app spec

variable (features : List Feature) (name : String)

def handleUpdateAppSource (source : Source) (build : BuildStrategy) : Prog Resources.Response := do
  match ← call .getApp with
  | .error e => return writeK8sError e
  | .ok (version, app) =>
    if app.spec.source ≠ source ∨ app.spec.build ≠ build then
      let candidate : AppSpec := { app.spec with source := source, build := build }
      if (validateApp features (candidate.gated name)).isSome then return ⟨403, "feature_disabled"⟩
      else putBack version app candidate
    else return ⟨200, ""⟩

def writeEnvSecret (secrets : List (String × String)) : Prog (Except ApiError Unit) :=
  createOrUpdate true (call (.createSecret (envSecretName name) secrets))
    (call (.updateSecret (envSecretName name) secrets))

def handleSetEnv (secrets : List (String × String)) : Prog Resources.Response :=
  EnvCalls.setEnv
    { getApp := call .getApp
      env := fun fetched => fetched.2.spec.env
      writeSecret := writeEnvSecret name secrets
      putBack := fun (version, app) newEnv =>
        putBack version app { app.spec with env := newEnv } } name secrets

inductive Request where
  | updateApp (spec : AppSpec)
  | updateAppSource (source : Source) (build : BuildStrategy)
  | setEnv (secrets : List (String × String))

def handleRequest : Request → Prog Resources.Response
  | .updateApp spec => handleUpdateApp spec
  | .updateAppSource source build => handleUpdateAppSource features name source build
  | .setEnv secrets => handleSetEnv name secrets

end Handlers

section Server

/-- A write that was stored: whose it was, the App when its writer had fetched it and
right before the write, and what was stored. -/
structure Commit where
  thread : ℕ
  seen : Versioned AppObject
  before : Versioned AppObject
  after : AppObject
deriving DecidableEq

structure World where
  app : Versioned AppObject
  /-- The App as each request has fetched it last. -/
  seen : ℕ → Versioned AppObject
  commits : List Commit

def World.start (app : Versioned AppObject) : World := ⟨app, fun _ => app, []⟩

def World.commit (w : World) (t : ℕ) (app : AppObject) : World where
  app := w.app.write (some app)
  seen := w.seen
  commits := ⟨t, w.seen t, w.app, app⟩ :: w.commits

inductive Fate where
  | answered
  | lost (e : ApiError)
  | refused (e : ApiError)

/-- The Secret is not part of the world: calls to write it are answered in any way. -/
@[reducible] def Call.Choice : Call → Type
  | .getApp => Option ApiError
  | .updateApp _ _ => Fate
  | _ => Except ApiError Unit

def AppObject.stored (app : AppObject) : AppObject := { app with spec := app.spec.defaulted }

/-- An update that has been taken up is stored if its version is the current one. -/
def World.take (w : World) (t : ℕ) (version : ℕ) (app : AppObject) : Except ApiError Unit × World :=
  match w.app.update version app.stored with
  | some _ => (.ok (), w.commit t app.stored)
  | none => (.error (if w.app.current.isSome then .conflict else .notFound), w)

def answer (t : ℕ) : (c : Call) → c.Choice → World → Option (c.Reply × World)
  | .getApp, none, w =>
    match w.app.get with
    | some fetched => some (.ok fetched, { w with seen := Function.update w.seen t w.app })
    | none => some (.error .notFound, w)
  | .getApp, some e, w => some (.error e, w)
  | .updateApp version app, .answered, w => some (w.take t version app)
  | .updateApp version app, .lost e, w => some (.error e, (w.take t version app).2)
  | .updateApp _ _, .refused e, w => some (.error e, w)
  | .createSecret _ _, reply, w | .updateSecret _ _, reply, w => some (reply, w)

def machine (t : ℕ) : Machine appServer World where
  Choice := Call.Choice
  answer := answer t

inductive Others : World → World → Prop where
  | write {w : World} (o : Option AppObject) :
      Others w { w with app := w.app.write (o.map AppObject.stored) }

/-- The dashboard with request `t` in thread `t`. -/
def dashboard (features : List Feature) (name : String) (request : ℕ → Request) :
    System appServer World ℕ Resources.Response where
  exec t := (machine t).exec
  env := Others
  restart w w' := w' = w
  starts t p := p = handleRequest features name (request t)

variable {t : ℕ} {w w' : World}

theorem exec_getApp {x : Except ApiError (ℕ × AppObject)} (h : (machine t).exec .getApp w x w') :
    (∃ e, x = .error e ∧ w' = w) ∨ ∃ version app, x = .ok (version, app) ∧
      w.app.get = some (version, app) ∧ w' = { w with seen := Function.update w.seen t w.app } := by
  obtain ⟨_ | e, hk⟩ := h
  · simp only [machine, answer] at hk
    split at hk
    · rename_i fetched hg
      cases hk
      exact .inr ⟨_, _, rfl, hg, rfl⟩
    · cases hk
      exact .inl ⟨_, rfl, rfl⟩
  · cases hk
    exact .inl ⟨_, rfl, rfl⟩

theorem take_cases (version : ℕ) (app : AppObject) :
    (w.take t version app).2 = w ∨
      w.app.version = version ∧ (w.take t version app).2 = w.commit t app.stored := by
  unfold World.take
  split
  · rename_i hup
    exact .inr ⟨(Versioned.update_eq_some.mp hup).2.1, rfl⟩
  · exact .inl rfl

theorem exec_updateApp {version : ℕ} {app : AppObject} {x : Except ApiError Unit}
    (h : (machine t).exec (.updateApp version app) w x w') :
    w' = w ∨ w.app.version = version ∧ w' = w.commit t app.stored := by
  obtain ⟨_ | e | e, hk⟩ := h
  · have hw : w' = (w.take t version app).2 := congrArg Prod.snd (Option.some.inj hk).symm
    exact hw ▸ take_cases version app
  · cases hk
    exact take_cases version app
  · cases hk
    exact .inl rfl

end Server

section Frames

variable (features : List Feature) (name : String)

/-- What a handler may make of the App that it replaces. -/
def Frames : Request → AppObject → AppObject → Prop
  | .updateApp _, before, after =>
    after.spec.source = before.spec.source ∧ after.spec.build = before.spec.build
  | .updateAppSource _ _, before, after =>
    after = { before with
      spec := { before.spec with source := after.spec.source, build := after.spec.build } } ∧
    validateApp features (after.spec.gated name) = none
  | .setEnv _, before, after =>
    after = { before with spec := { before.spec with env := after.spec.env } }

/-- A write with nothing between it and the fetch it rests on, in the frame of its
handler. -/
def Commit.Framed (request : ℕ → Request) (e : Commit) : Prop :=
  e.seen = e.before ∧
    ∃ before, e.before.current = some before ∧ Frames features name (request e.thread) before e.after

variable (request : ℕ → Request)

structure Inv (w : World) : Prop where
  stored : ∀ app ∈ w.app.current, app.spec.defaulted = app.spec
  seen : ∀ t, (w.seen t).Later w.app
  framed : ∀ e ∈ w.commits, e.Framed features name request

def fetching : Discipline World ℕ where
  inv := Inv features name request
  evolves _ _ := True
  rely t w w' := w'.seen t = w.seen t
  evolves_refl _ := trivial
  evolves_trans := fun _ _ => trivial
  rely_refl _ _ := rfl
  rely_trans := fun _ _ _ _ h h' => h'.trans h

variable {features name request} {t : ℕ} {w w' : World} {version : ℕ} {app : AppObject}

theorem Inv.write (h : Inv features name request w) {o : Option AppObject} {commits : List Commit}
    (ho : ∀ app ∈ o, app.spec.defaulted = app.spec)
    (hc : ∀ e ∈ commits, e.Framed features name request) :
    Inv features name request ⟨w.app.write o, w.seen, commits⟩ :=
  ⟨ho, fun t => (h.seen t).trans (Versioned.later_write _ _), hc⟩

theorem Inv.fetch (h : Inv features name request w) :
    Inv features name request { w with seen := Function.update w.seen t w.app } := by
  refine ⟨h.stored, fun u => ?_, h.framed⟩
  by_cases hu : u = t
  · subst hu
    simp [Versioned.Later.refl]
  · simpa [hu] using h.seen u

theorem Inv.commit (h : Inv features name request w) (hg : (w.seen t).get = some (version, app))
    (hv : w.app.version = version) {after : AppObject}
    (hf : Frames features name (request t) app after.stored) :
    Inv features name request (w.commit t after.stored) := by
  obtain ⟨heq, hc⟩ := (h.seen t).eq_of_get hg hv
  refine h.write ?_ ?_
  · rintro _ ⟨⟩
    exact defaulted_defaulted _
  intro e he
  rcases List.mem_cons.mp he with rfl | he
  · exact ⟨heq, app, hc, hf⟩
  · exact h.framed e he

theorem allowed_self (h : Inv features name request w) : Allowed (fetching features name request) t w w :=
  ⟨h, trivial, fun _ _ => rfl⟩

theorem safe_putBack {spec : AppSpec} (hg : (w.seen t).get = some (version, app))
    (hf : Frames features name (request t) app { app with spec := spec.defaulted }) :
    Safe (dashboard features name request).exec (fetching features name request) t (fun _ _ => True)
      (putBack version app spec) w := by
  intro w1 hr hi x w2 hx
  refine ⟨?_, by cases x <;> trivial⟩
  rcases exec_updateApp hx with rfl | ⟨hv, rfl⟩
  · exact allowed_self hi
  · exact ⟨hi.commit (hr ▸ hg) hv hf, trivial, fun _ _ => rfl⟩

/-- A handler that fetches the App has a state of it to go on with. -/
theorem safe_getApp {f : Except ApiError (ℕ × AppObject) → Prog Resources.Response}
    (he : ∀ e w, Safe (dashboard features name request).exec (fetching features name request) t
      (fun _ _ => True) (f (.error e)) w)
    (hok : ∀ version app w, (w.seen t).get = some (version, app) → app.spec.defaulted = app.spec →
      Safe (dashboard features name request).exec (fetching features name request) t
        (fun _ _ => True) (f (.ok (version, app))) w) :
    Safe (dashboard features name request).exec (fetching features name request) t (fun _ _ => True)
      (call .getApp >>= f) w := by
  intro w1 _ hi x w2 hx
  rcases exec_getApp hx with ⟨e, rfl, rfl⟩ | ⟨version, app, rfl, hg, rfl⟩
  · exact ⟨allowed_self hi, he e w2⟩
  refine ⟨⟨hi.fetch, trivial, fun u hu => ?_⟩, hok version app _ ?_ ?_⟩
  · exact Function.update_of_ne hu _ _
  · simpa using hg
  · exact hi.stored app (Versioned.get_eq_some.mp hg).1

theorem safe_writeEnvSecret {secrets : List (String × String)} (hg : (w.seen t).get = some (version, app)) :
    Safe (dashboard features name request).exec (fetching features name request) t
      (fun _ w => (w.seen t).get = some (version, app)) (writeEnvSecret name secrets) w := by
  intro w1 hr hi x w2 hx
  obtain ⟨_, hk⟩ := hx
  cases hk
  refine ⟨allowed_self hi, ?_⟩
  have hg1 : (w1.seen t).get = some (version, app) := hr ▸ hg
  cases x with
  | ok _ => exact hg1
  | error e =>
    change Safe _ _ _ _ (if _ then _ else _) _
    split
    · exact hg1
    intro w3 hr3 hi3 x w4 hx
    obtain ⟨_, hk⟩ := hx
    cases hk
    have hg3 : (w3.seen t).get = some (version, app) := hr3 ▸ hg1
    exact ⟨allowed_self hi3, hg3⟩

/-- Every handler writes the App it has fetched, at the version it has seen. -/
theorem safe_handleRequest : Safe (dashboard features name request).exec
    (fetching features name request) t (fun _ _ => True)
    (handleRequest features name (request t)) w := by
  cases hr : request t with
  | updateApp spec =>
    refine safe_getApp (fun _ _ => trivial) fun version app w1 hg _ => ?_
    dsimp only
    split
    · trivial
    rename_i hsm
    simp only [ne_eq, not_or, not_not] at hsm
    refine safe_putBack hg ?_
    rw [hr]
    exact ⟨hsm.1.symm, hsm.2.symm⟩
  | updateAppSource source build =>
    refine safe_getApp (fun _ _ => trivial) fun version app w1 hg hs => ?_
    dsimp only
    split
    · split
      · trivial
      rename_i hv
      -- the defaults were there when the App was fetched
      have hd := defaulted_of_same { app.spec with source := source, build := build }
        hs rfl rfl
      refine safe_putBack hg ?_
      rw [hr, hd]
      exact ⟨rfl, Option.not_isSome_iff_eq_none.mp hv⟩
    · trivial
  | setEnv secrets =>
    change Safe _ _ _ _ (handleSetEnv name secrets) w
    unfold handleSetEnv EnvCalls.setEnv
    split
    · trivial
    split
    · trivial
    rename_i keys _
    refine safe_getApp (fun _ _ => trivial) fun version app w1 hg hs => ?_
    dsimp only
    split
    · trivial
    refine Safe.bind ((safe_writeEnvSecret hg).mono fun written w2 hg2 => ?_)
    cases written with
    | error e => trivial
    | ok _ =>
      have hd := defaulted_of_same { app.spec with
        env := reconcileEnvRefs app.spec.env (envSecretName name) keys } hs rfl rfl
      refine safe_putBack hg2 ?_
      rw [hr, hd]
      rfl

/-- So do any number of requests at once. -/
theorem dashboard_respects : (dashboard features name request).Respects
    (fetching features name request) (fun _ _ _ => True) where
  starts := by
    rintro t _ w rfl -
    exact safe_handleRequest
  lasts := fun _ _ _ _ _ _ => trivial
  env := by
    rintro w _ hi ⟨o⟩
    refine ⟨hi.write ?_ hi.framed, trivial, fun _ => rfl⟩
    simp only [Option.mem_def, Option.map_eq_some_iff]
    rintro _ ⟨app, -, rfl⟩
    exact defaulted_defaulted _
  restart := by
    rintro w _ hi rfl
    exact ⟨hi, trivial⟩

end Frames

/-- Whoever else writes the App, every write of a handler is in its frame and replaces
the very state that the handler had fetched, so that it undoes no write of anybody. -/
theorem app_write_frames {features : List Feature} {name : String} {request : ℕ → Request}
    {app : Versioned AppObject} {c : Config appServer World ℕ Resources.Response}
    (hstored : ∀ a ∈ app.current, a.spec.defaulted = a.spec)
    (hsteps : (dashboard features name request).Steps (Config.idle (World.start app)) c) :
    ∀ e ∈ c.shared.commits, e.seen = e.before ∧ ∃ before, e.before.current = some before ∧
      Frames features name (request e.thread) before e.after := by
  have hstart : Inv features name request (World.start app) :=
    ⟨hstored, fun _ => Versioned.Later.refl app, by simp [World.start]⟩
  obtain ⟨hgood, -⟩ := System.reachable_good dashboard_respects (System.good_idle hstart) hsteps
  exact hgood.inv.framed

def sampleSpec : AppSpec where
  source := ⟨some ⟨"acme/web", ""⟩, none, none, ""⟩
  build := ⟨.dockerfile, none, none, none⟩
  type := some .web
  command := []
  port := none
  replicas := some 1
  env := []
  resources := none
  healthCheck := none

def sampleApp : Versioned AppObject := ⟨[some ⟨[], sampleSpec⟩]⟩

def gitSource : Source := ⟨none, some ⟨"https://git.example/acme/web", ""⟩, none, ""⟩

/-- A move to another repository, a new variable, and a change of the replicas. -/
def sampleRequests : ℕ → Request
  | 0 => .updateAppSource gitSource sampleSpec.build
  | 1 => .setEnv [("TOKEN", "x")]
  | _ => .updateApp { sampleSpec with source := gitSource, replicas := some 2 }

def samplePick : (c : Call) → World → c.Choice
  | .getApp, _ => none
  | .updateApp _ _, _ => .answered
  | .createSecret _ _, _ | .updateSecret _ _, _ => .ok ()

def sampleWorld : World :=
  [0, 1, 2].foldl (fun w t => (machine t).after samplePick
    (handleRequest [.sourceGit] "web" (sampleRequests t)) w) (World.start sampleApp)

/-- All three are stored, and each keeps to its frame. -/
theorem sample_write_frames :
    sampleWorld.commits.map (fun e => (e.thread, e.after.spec.replicas)) =
      [(2, some 2), (1, some 1), (0, some 1)] ∧
    ∀ e ∈ sampleWorld.commits, e.seen = e.before ∧ ∃ before, e.before.current = some before ∧
      Frames [.sourceGit] "web" (sampleRequests e.thread) before e.after := by
  have hstored : ∀ a ∈ sampleApp.current, a.spec.defaulted = a.spec := by decide
  have hsteps : (dashboard [.sourceGit] "web" sampleRequests).Steps
      (Config.idle (World.start sampleApp)) (Config.idle sampleWorld) :=
    System.steps_idle_after machine (fun _ => samplePick) _ (fun _ _ _ _ _ h => h) (fun _ => rfl) [0, 1, 2] _
  exact ⟨by decide +kernel, app_write_frames hstored hsteps⟩

end Orkano.Dashboard.AppWrites
