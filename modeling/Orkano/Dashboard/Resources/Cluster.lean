import Orkano.Dashboard.Resources.Handlers

/-!
The apps namespace as the handlers see it: the live objects, the Secrets with the object each
was written for, and the lock of the dashboard. The operator, syncs and the removal of Secrets
run beside the handlers.
-/
namespace Orkano.Dashboard.Resources

open Interleave

structure World where
  objects : List Object
  /-- The Apps whose env Secret was written. -/
  envSet : List String
  secrets : String → Option Secret
  nameMu : Option ℕ
  clobbered : List (String × Object × Object)

namespace World

def claim (w : World) (o : Object) : Option String :=
  match o.kind with
  | .app => if o.name ∈ w.envSet then some (envSecretName o.name) else none
  | .postgres | .mongo | .externalSecret => some o.name
  | .secretStore => some (credentialsName o.name)

def add (w : World) (o : Object) : World := { w with objects := o :: w.objects }

def remove (w : World) (o : Object) : World :=
  { w with objects := w.objects.filter fun o' => o' ≠ o }

def put (w : World) (name : String) (secret : Secret) : World where
  objects := w.objects
  envSet := if secret.owner.kind = .app then secret.owner.name :: w.envSet else w.envSet
  secrets := Function.update w.secrets name (some secret)
  nameMu := w.nameMu
  clobbered :=
    match w.secrets name with
    | some old =>
      if old.owner = secret.owner then w.clobbered
      else (name, old.owner, secret.owner) :: w.clobbered
    | none => w.clobbered

end World

/-- What is left open at each call: an error, or the App's current variables. -/
@[reducible] def Call.Choice : Call → Type
  | lock | unlock => Unit
  | getApp _ => Except ApiError (List EnvVar)
  | _ => Option ApiError

/-- An object is reported missing only if it is, and a kind unknown only if it has no
objects. -/
def answer (t : ℕ) : (c : Call) → c.Choice → World → Option (c.Reply × World)
  | .lock, _, w => if w.nameMu = none then some ((), { w with nameMu := some t }) else none
  | .unlock, _, w => some ((), { w with nameMu := none })
  | .get o, none, w => some (if o ∈ w.objects then .ok () else .error .notFound, w)
  | .get o, some e, w =>
    if e ≠ .notFound ∧ (e = .noMatch → ∀ o' ∈ w.objects, o'.kind ≠ o.kind) then
      some (.error e, w)
    else none
  | .create o, none, w =>
    if o ∈ w.objects then some (.error .alreadyExists, w) else some (.ok (), w.add o)
  | .update o, none, w => some (if o ∈ w.objects then .ok () else .error .notFound, w)
  | .delete o, none, w =>
    if o ∈ w.objects then some (.ok (), w.remove o) else some (.error .notFound, w)
  | .getApp name, .ok env, w =>
    some (if ⟨.app, name⟩ ∈ w.objects then .ok env else .error .notFound, w)
  | .getApp _, .error e, w => some (.error e, w)
  | .updateApp name _, none, w =>
    some (if ⟨.app, name⟩ ∈ w.objects then .ok () else .error .notFound, w)
  | .createSecret name secret, none, w =>
    if (w.secrets name).isSome then some (.error .alreadyExists, w)
    else some (.ok (), w.put name secret)
  | .updateSecret name secret, none, w =>
    if (w.secrets name).isSome then some (.ok (), w.put name secret)
    else some (.error .notFound, w)
  | .create _, some e, w | .update _, some e, w | .delete _, some e, w
  | .updateApp _ _, some e, w | .createSecret _ _, some e, w
  | .updateSecret _ _, some e, w => some (.error e, w)

def machine (t : ℕ) : Machine apiServer World where
  Choice := Call.Choice
  answer := answer t

def isDatabase (o : Object) : Bool := o.kind = .postgres || o.kind = .mongo

/-- The owners that are controllers of their Secrets. -/
def controls (o : Object) : Bool := isDatabase o || o.kind = .externalSecret

/-- What others do. The operator adopts a Secret unless it has another controller; a
sync leaves a Secret alone that it does not own. -/
inductive EnvStep : World → World → Prop where
  | operator {w : World} (o : Object) (data : List (String × String)) :
      o ∈ w.objects → isDatabase o →
      (∀ old ∈ w.secrets o.name, controls old.owner → old.owner = o) →
      EnvStep w (w.put o.name ⟨o, data⟩)
  | sync {w : World} (o : Object) (data : List (String × String)) :
      o ∈ w.objects → o.kind = .externalSecret → (∀ old ∈ w.secrets o.name, old.owner = o) →
      EnvStep w (w.put o.name ⟨o, data⟩)
  | collect {w : World} (name : String) :
      (∀ old ∈ w.secrets name, old.owner ∉ w.objects) →
      EnvStep w { w with secrets := Function.update w.secrets name none }

/-- One dashboard process that serves any requests; a restart frees the lock. -/
def dashboard (cfg : Config) : System apiServer World ℕ Response where
  exec t := (machine t).exec
  env := EnvStep
  restart w w' := w' = { w with nameMu := none }
  starts _ p := ∃ req, p = handleRequest cfg req

section Exec

variable {t : ℕ} {w w' : World} {o : Object}
variable {x : Except ApiError Unit}

/-- An answer that nothing was found is true when it is given. -/
theorem exec_get (h : (machine t).exec (.get o) w x w') :
    w' = w ∧ (x = .error .notFound → o ∉ w.objects) ∧
      (x = .error .noMatch → ∀ o' ∈ w.objects, o'.kind ≠ o.kind) := by
  obtain ⟨_ | e, hk⟩ := h
  · cases hk
    refine ⟨rfl, ?_, ?_⟩
    · intro hx hm
      simp [hm] at hx
    · intro hx
      split at hx <;> cases hx
  simp only [machine, answer] at hk
  split at hk
  · rename_i he
    cases hk
    refine ⟨rfl, ?_, ?_⟩
    · rintro ⟨⟩
      exact absurd rfl he.1
    · rintro ⟨⟩
      exact he.2 rfl
  · cases hk

theorem exec_create (h : (machine t).exec (.create o) w x w') :
    w' = w ∨ x = .ok () ∧ o ∉ w.objects ∧ w' = w.add o := by
  obtain ⟨_ | e, hk⟩ := h
  · simp only [machine, answer] at hk
    split at hk
    · cases hk
      exact .inl rfl
    rename_i hn
    cases hk
    exact .inr ⟨rfl, hn, rfl⟩
  · cases hk
    exact .inl rfl

theorem exec_delete (h : (machine t).exec (.delete o) w x w') : w' = w ∨ w' = w.remove o := by
  obtain ⟨_ | e, hk⟩ := h
  · simp only [machine, answer] at hk
    split at hk
    · cases hk
      exact .inr rfl
    · cases hk
      exact .inl rfl
  · cases hk
    exact .inl rfl

theorem exec_update (h : (machine t).exec (.update o) w x w') : w' = w := by
  obtain ⟨_ | e, hk⟩ := h <;> cases hk <;> rfl

variable {name : String}

theorem exec_updateApp {env : List EnvVar} (h : (machine t).exec (.updateApp name env) w x w') :
    w' = w := by
  obtain ⟨_ | e, hk⟩ := h <;> cases hk <;> rfl

theorem exec_lock {x : Unit} (h : (machine t).exec .lock w x w') :
    w.nameMu = none ∧ w' = { w with nameMu := some t } := by
  obtain ⟨_, hk⟩ := h
  simp only [machine, answer] at hk
  split at hk
  · rename_i hf
    cases hk
    exact ⟨hf, rfl⟩
  · cases hk

variable {secret : Secret}

theorem exec_createSecret (h : (machine t).exec (.createSecret name secret) w x w') :
    w' = w ∨ x = .ok () ∧ w' = w.put name secret := by
  obtain ⟨_ | e, hk⟩ := h
  · simp only [machine, answer] at hk
    split at hk
    · cases hk
      exact .inl rfl
    · cases hk
      exact .inr ⟨rfl, rfl⟩
  · cases hk
    exact .inl rfl

theorem exec_updateSecret (h : (machine t).exec (.updateSecret name secret) w x w') :
    w' = w ∨ x = .ok () ∧ w' = w.put name secret := by
  obtain ⟨_ | e, hk⟩ := h
  · simp only [machine, answer] at hk
    split at hk
    · cases hk
      exact .inr ⟨rfl, rfl⟩
    · cases hk
      exact .inl rfl
  · cases hk
    exact .inl rfl

theorem exec_getApp {x : Except ApiError (List EnvVar)}
    (h : (machine t).exec (.getApp name) w x w') :
    w' = w ∧ ∀ env, x = .ok env → ⟨.app, name⟩ ∈ w.objects := by
  obtain ⟨_ | env, hk⟩ := h
  · cases hk
    exact ⟨rfl, nofun⟩
  cases hk
  refine ⟨rfl, ?_⟩
  intro env' hx
  by_contra hnone
  simp [hnone] at hx

end Exec

end Orkano.Dashboard.Resources
