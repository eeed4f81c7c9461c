import Orkano.Dashboard.Resources.AppWrites
import Orkano.Dashboard.Resources.EnvRefs

/-!
An App and the Secret with its secret variables. A request writes the Secret whole and then
points the App at its keys; two requests may write the two objects in different orders.
-/
namespace Orkano.Dashboard.AppWrites

open Interleave Program
open Resources (ApiError EnvVar envSecretName sortedEnvKeys reconcileEnvRefs
  EnvVar.refersTo_of_secretRef envRef_of_mem_reconcileEnvRefs envRef)

structure Store where
  app : Versioned AppObject
  secrets : String → Option (List (String × String))

def Store.keys (w : Store) (secret : String) : List String :=
  ((w.secrets secret).getD []).map Prod.fst

def Store.setSecret (w : Store) (secret : String) (data : List (String × String)) : Store :=
  { w with secrets := Function.update w.secrets secret (some data) }

/-- A write is taken up if there is a Secret just when it asks for one. -/
def Store.takeSecret (w : Store) (there : Bool) (secret : String) (data : List (String × String)) :
    Except ApiError Unit × Store :=
  if (w.secrets secret).isSome = there then (.ok (), w.setSecret secret data)
  else (.error (if there then .notFound else .alreadyExists), w)

def Store.takeApp (w : Store) (version : ℕ) (app : AppObject) : Except ApiError Unit × Store :=
  match w.app.update version app.stored with
  | some written => (.ok (), { w with app := written })
  | none => (.error (if w.app.current.isSome then .conflict else .notFound), w)

/-- Every write may be refused, or be stored and yet be answered with an error. -/
def Fate.settle (fate : Fate) (w : Store) (taken : Except ApiError Unit × Store) :
    Except ApiError Unit × Store :=
  match fate with
  | .answered => taken
  | .lost e => (.error e, taken.2)
  | .refused e => (.error e, w)

@[reducible] def Call.Outcome : Call → Type
  | .getApp => Option ApiError
  | _ => Fate

def respond : (c : Call) → c.Outcome → Store → Option (c.Reply × Store)
  | .getApp, none, w => some (w.app.get.elim (.error .notFound) .ok, w)
  | .getApp, some e, w => some (.error e, w)
  | .updateApp version app, fate, w => some (fate.settle w (w.takeApp version app))
  | .createSecret secret data, fate, w => some (fate.settle w (w.takeSecret false secret data))
  | .updateSecret secret data, fate, w => some (fate.settle w (w.takeSecret true secret data))

def storeMachine : Machine appServer Store where
  Choice := Call.Outcome
  answer := respond

/-- Any number of requests set the variables of one App, each to its own. -/
def envRequests (name : String) (secrets : ℕ → List (String × String)) :
    System appServer Store ℕ Resources.Response where
  exec _ := storeMachine.exec
  env _ _ := False
  restart w w' := w' = w
  starts t p := p = handleSetEnv name (secrets t)

/-- Each reference into the Secret names a key that it has. -/
def Resolved (name : String) (w : Store) : Prop :=
  ∀ app ∈ w.app.current, ∀ e ∈ app.spec.env, ∀ key,
    e.secretRef = some (envSecretName name, key) → key ∈ w.keys (envSecretName name)

/-- A Secret is overwritten by one that has its keys, and perhaps more. -/
def Widening (_ : ℕ) (c : Call) (w : Store) (_ : c.Reply) : Prop :=
  match c with
  | .updateSecret secret data => ∀ key ∈ w.keys secret, key ∈ data.map Prod.fst
  | _ => True

section Steps

variable {name secret : String} {w w' : Store} {version : ℕ} {app : AppObject}
  {data : List (String × String)} {x : Except ApiError Unit}

@[simp] theorem keys_setSecret (w : Store) (secret : String) (data : List (String × String)) :
    (w.setSecret secret data).keys secret = data.map Prod.fst := by
  simp [Store.keys, Store.setSecret]

theorem keys_setSecret_of_ne {secret' : String} (h : secret' ≠ secret) :
    (w.setSecret secret data).keys secret' = w.keys secret' := by
  simp [Store.keys, Store.setSecret, h]

theorem takeSecret_cases (w : Store) (there : Bool) (secret : String)
    (data : List (String × String)) :
    (w.takeSecret there secret data).2 = w ∧ (w.takeSecret there secret data).1 ≠ .ok () ∨
      (w.secrets secret).isSome = there ∧
        (w.takeSecret there secret data).2 = w.setSecret secret data := by
  unfold Store.takeSecret
  split
  · rename_i ht
    exact .inr ⟨ht, rfl⟩
  · exact .inl ⟨rfl, nofun⟩

theorem takeApp_cases (w : Store) (version : ℕ) (app : AppObject) :
    (w.takeApp version app).2 = w ∨
      (w.takeApp version app).2 = { w with app := w.app.write (some app.stored) } := by
  unfold Store.takeApp
  split
  · rename_i hup
    obtain ⟨-, -, rfl⟩ := Versioned.update_eq_some.mp hup
    exact .inr rfl
  · exact .inl rfl

/-- A write leaves everything alone, or is stored; an answer without an error is true. -/
theorem settle_cases (fate : Fate) {taken : Except ApiError Unit × Store}
    (h : some (fate.settle w taken) = some (x, w')) :
    w' = w ∧ x ≠ .ok () ∨ w' = taken.2 ∧ (x = .ok () → taken.1 = .ok ()) := by
  cases fate with
  | answered =>
    cases h
    exact .inr ⟨rfl, id⟩
  | lost e =>
    cases h
    exact .inr ⟨rfl, nofun⟩
  | refused e =>
    cases h
    exact .inl ⟨rfl, nofun⟩

theorem exec_takeSecret {there : Bool} {fate : Fate}
    (h : some (fate.settle w (w.takeSecret there secret data)) = some (x, w')) :
    w' = w ∧ x ≠ .ok () ∨ (w.secrets secret).isSome = there ∧ w' = w.setSecret secret data := by
  rcases settle_cases fate h with hs | ⟨rfl, hok⟩
  · exact .inl hs
  rcases takeSecret_cases w there secret data with ⟨hw, hx⟩ | hst
  · exact .inl ⟨hw, fun hx' => hx (hok hx')⟩
  · exact .inr hst

end Steps

section Requests

variable {name secret : String} {secrets : ℕ → List (String × String)} {w w' : Store} {t : ℕ}
  {version : ℕ} {app : AppObject} {data : List (String × String)} {x : Except ApiError Unit}

def Grows (name : String) (w w' : Store) : Prop :=
  ∀ key ∈ w.keys (envSecretName name), key ∈ w'.keys (envSecretName name)

def growing (name : String) : Discipline Store ℕ where
  inv := Resolved name
  evolves _ _ := True
  rely _ := Grows name
  evolves_refl _ := trivial
  evolves_trans := fun _ _ => trivial
  rely_refl _ _ := fun _ => id
  rely_trans := fun _ _ _ _ h h' key hkey => h' key (h key hkey)

theorem Resolved.allowed (h : Resolved name w) (hg : Grows name w w') (hap : w'.app = w.app) :
    Allowed (growing name) t w w' := by
  refine ⟨?_, trivial, fun _ _ => hg⟩
  intro a ha e he key hr
  rw [hap] at ha
  exact hg key (h a ha e he key hr)

theorem grows_setSecret (h : ∀ key ∈ w.keys secret, key ∈ data.map Prod.fst) :
    Grows name w (w.setSecret secret data) := by
  intro key hk
  by_cases hs : envSecretName name = secret
  · subst hs
    rw [keys_setSecret]
    exact h key hk
  · rwa [keys_setSecret_of_ne hs]

/-- What a request that sets the variables may see. -/
abbrev envExec (name : String) (secrets : ℕ → List (String × String)) :=
  ((envRequests name secrets).restrict Widening).exec

theorem allowed_takeSecret {there : Bool} {fate : Fate} (hi : Resolved name w)
    (hk : some (fate.settle w (w.takeSecret there secret data)) = some (x, w'))
    (hky : (w.secrets secret).isSome = there → ∀ key ∈ w.keys secret, key ∈ data.map Prod.fst) :
    Allowed (growing name) t w w' ∧
      (x = .ok () → ∀ key ∈ data.map Prod.fst, key ∈ w'.keys secret) := by
  rcases exec_takeSecret hk with ⟨rfl, hx⟩ | ⟨ht, rfl⟩
  · exact ⟨hi.allowed (fun _ => id) rfl, fun hok => absurd hok hx⟩
  · refine ⟨hi.allowed (grows_setSecret (hky ht)) rfl, fun _ key hke => ?_⟩
    rwa [keys_setSecret]

theorem keys_of_missing (h : (w.secrets secret).isSome = false) : w.keys secret = [] := by
  rw [Option.isSome_eq_false_iff, Option.isNone_iff_eq_none] at h
  simp [Store.keys, h]

/-- A Secret that was written has the keys of the request, and keeps them. -/
theorem safe_writeSecret :
    Safe (envExec name secrets) (growing name) t
      (fun r w => r = .ok () → ∀ key ∈ data.map Prod.fst, key ∈ w.keys (envSecretName name))
      (writeEnvSecret name data) w := by
  intro w1 _ hi x w2 hx
  obtain ⟨-, fate, hk⟩ := hx
  have hn : (w1.secrets (envSecretName name)).isSome = false →
      ∀ key ∈ w1.keys (envSecretName name), key ∈ data.map Prod.fst := by
    intro hm
    simp [keys_of_missing hm]
  obtain ⟨ha, hky⟩ := allowed_takeSecret hi hk hn
  refine ⟨ha, ?_⟩
  cases x with
  | ok _ => exact fun _ => hky rfl
  | error e =>
    change Safe _ _ _ _ (if _ then _ else _) _
    split
    · exact nofun
    intro w3 _ hi3 y w4 hy
    obtain ⟨hw, fate', hk'⟩ := hy
    exact allowed_takeSecret hi3 hk' fun _ => hw

/-- An App may be put back whose references all have a key in the Secret. -/
theorem safe_pointAt {spec : AppSpec}
    (h : ∀ e ∈ spec.env, ∀ key, e.secretRef = some (envSecretName name, key) →
      key ∈ w.keys (envSecretName name)) :
    Safe (envExec name secrets) (growing name) t (fun _ _ => True)
      (putBack version app spec) w := by
  intro w1 hg hi x w2 hx
  refine ⟨?_, by cases x <;> trivial⟩
  obtain ⟨-, fate, hk⟩ := hx
  rcases settle_cases fate hk with ⟨rfl, -⟩ | ⟨rfl, -⟩
  · exact hi.allowed (fun _ => id) rfl
  rcases takeApp_cases w1 version { app with spec := spec } with hw | hw
  · rw [hw]
    exact hi.allowed (fun _ => id) rfl
  rw [hw]
  refine ⟨?_, trivial, fun _ _ _ => id⟩
  rintro _ ⟨⟩ e he key hr
  exact hg key (h e he key hr)

theorem mem_sortedEnvKeys {keys : List String} (h : sortedEnvKeys data = some keys) {key : String} :
    key ∈ keys ↔ key ∈ data.map Prod.fst := by
  unfold sortedEnvKeys at h
  split at h
  · cases h
    exact List.mem_insertionSort _
  · cases h

/-- The Secret is written before the App refers to it. -/
theorem safe_handleSetEnv :
    Safe (envExec name secrets) (growing name) t (fun _ _ => True) (handleSetEnv name data) w := by
  unfold handleSetEnv Resources.EnvCalls.setEnv
  split
  · trivial
  split
  · trivial
  rename_i keys hky
  intro w1 _ hi x w2 hx
  obtain rfl : w2 = w1 := by
    obtain ⟨-, _ | e, hk⟩ := hx <;> cases hk <;> rfl
  refine ⟨hi.allowed (fun _ => id) rfl, ?_⟩
  cases x with
  | error e => trivial
  | ok fetched =>
    change Safe _ _ _ _ (if _ then _ else _) _
    split
    · trivial
    refine Safe.bind (safe_writeSecret.mono fun written w3 hw => ?_)
    cases written with
    | error e => trivial
    | ok _ =>
      refine safe_pointAt fun e he key hr => ?_
      obtain ⟨key', hk', rfl⟩ :=
        envRef_of_mem_reconcileEnvRefs he (EnvVar.refersTo_of_secretRef hr)
      cases hr
      exact hw rfl key ((mem_sortedEnvKeys hky).mp hk')

/-- Any number of widening saves at once refer to keys that are there. -/
theorem envRequests_respects :
    ((envRequests name secrets).restrict Widening).Respects (growing name) fun _ _ _ => True where
  starts := by
    rintro t _ w rfl -
    exact safe_handleSetEnv
  lasts := fun _ _ _ _ _ _ => trivial
  env := fun _ h => h.elim
  restart := by
    rintro w _ hi rfl
    exact ⟨hi, trivial⟩

end Requests

/-- While no request drops a key that the Secret has, no reference of the App lacks its key,
whatever fails and however the requests overlap. -/
theorem env_refs_resolved {name : String} {secrets : ℕ → List (String × String)} {w : Store}
    {c : Config appServer Store ℕ Resources.Response} (hstart : Resolved name w)
    (hsteps : ((envRequests name secrets).restrict Widening).Steps (Config.idle w) c) :
    ∀ app ∈ c.shared.app.current, ∀ e ∈ app.spec.env, ∀ key,
      e.secretRef = some (envSecretName name, key) →
        key ∈ c.shared.keys (envSecretName name) := by
  obtain ⟨hgood, -⟩ :=
    System.reachable_good envRequests_respects (System.good_idle hstart) hsteps
  exact hgood.inv

def bareStore : Store := ⟨sampleApp, fun _ => none⟩

theorem bareStore_resolved : Resolved "web" bareStore := by
  rintro _ ⟨⟩ e he
  cases he

def plainPick : (c : Call) → Store → c.Outcome
  | .getApp, _ => none
  | .updateApp _ _, _ | .createSecret _ _, _ | .updateSecret _ _, _ => .answered

def separateSecrets : ℕ → List (String × String)
  | 0 => [("A", "x")]
  | _ => [("B", "y")]

/-- Both requests fetch the App, then both write the Secret, then both update the App. -/
def overlapping : Config appServer Store ℕ Resources.Response :=
  [0, 0, 1, 1, 0, 1, 1, 0, 1].foldl (System.advance (fun _ => storeMachine) (fun _ => plainPick)
    fun t => handleSetEnv "web" (separateSecrets t)) (Config.idle bareStore)

/-- The second Secret and the first App win. -/
theorem overlapping_requests_dangle :
    Resolved "web" bareStore ∧
    (envRequests "web" separateSecrets).Steps (Config.idle bareStore) overlapping ∧
      overlapping.result 0 = some ⟨200, ""⟩ ∧ overlapping.result 1 = some ⟨409, "conflict"⟩ ∧
      (∃ app ∈ overlapping.shared.app.current, ∃ e ∈ app.spec.env,
        e.secretRef = some (envSecretName "web", "A")) ∧
      "A" ∉ overlapping.shared.keys (envSecretName "web") := by
  refine ⟨bareStore_resolved, ?_, by decide +kernel, by decide +kernel, by decide +kernel,
    by decide +kernel⟩
  exact System.steps_schedule _ _ _ (fun _ _ _ _ _ h => h) (fun _ => rfl) _ _

def keepsKeys (c : Call) (w : Store) (_ : c.Reply) (_ : Store) : Bool :=
  match c with
  | .updateSecret secret data => (w.keys secret).all fun key => data.any fun kv => kv.1 = key
  | _ => true

theorem widening_of_keepsKeys {t : ℕ} {c : Call} {w w' : Store} {x : c.Reply}
    (h : keepsKeys c w x w' = true) : Widening t c w x := by
  cases c with
  | updateSecret secret data =>
    intro key hk
    obtain ⟨kv, hkv, heq⟩ := List.any_eq_true.mp (List.all_eq_true.mp h key hk)
    exact List.mem_map.mpr ⟨kv, hkv, of_decide_eq_true heq⟩
  | _ => trivial

def addedSecrets : ℕ → List (String × String)
  | 0 => [("A", "x")]
  | _ => [("A", "x"), ("B", "y")]

def widened : Config appServer Store ℕ Resources.Response :=
  [0, 0, 0, 1, 1, 1, 1, 1, 0].foldl (System.advance (fun _ => storeMachine.guard keepsKeys)
    (fun _ => plainPick) fun t => handleSetEnv "web" (addedSecrets t)) (Config.idle bareStore)

/-- Two saves of growing keys interleave; the slower one meets a conflict. -/
theorem widened_refs_resolved :
    widened.result 0 = some ⟨409, "conflict"⟩ ∧ widened.result 1 = some ⟨200, ""⟩ ∧
      (widened.shared.app.current.map fun app => app.spec.env.map (·.name)) = some ["A", "B"] ∧
      ∀ app ∈ widened.shared.app.current, ∀ e ∈ app.spec.env, ∀ key,
        e.secretRef = some (envSecretName "web", key) →
          key ∈ widened.shared.keys (envSecretName "web") := by
  have hsteps : ((envRequests "web" addedSecrets).restrict Widening).Steps (Config.idle bareStore)
      widened := by
    refine System.steps_schedule _ _ _ (fun t c w x w' h => ?_) (fun _ => rfl) _ _
    obtain ⟨hexec, hok⟩ := (Machine.exec_guard _).mp h
    exact ⟨widening_of_keepsKeys hok, hexec⟩
  exact ⟨by decide +kernel, by decide +kernel, by decide +kernel,
    env_refs_resolved bareStore_resolved hsteps⟩

end Orkano.Dashboard.AppWrites
