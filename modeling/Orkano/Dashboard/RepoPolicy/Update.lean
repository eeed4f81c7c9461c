import Orkano.Dashboard.Resources.Handlers
import Orkano.Interleave.Versioned
import Orkano.RepoAllowlist.Normalize

/-!
The dashboard's update of the repository policy, one key of a ConfigMap, with its audit entries.
An update answered with an error may have been stored, so the handler reads the policy back.
-/
namespace Orkano.Dashboard.RepoPolicy

open Interleave Program Text
open RepoAllowlist (normalize format parse)
open Resources (ApiError writeK8sError)

structure ConfigMap where
  data : List (String × String)
deriving DecidableEq, Repr

def dataKey : String := "repositories"

def ConfigMap.policy (configMap : ConfigMap) : Option String := configMap.data.lookup dataKey

def ConfigMap.setPolicy (configMap : ConfigMap) (text : String) : ConfigMap :=
  ⟨(dataKey, text) :: configMap.data.filter fun kv => kv.1 ≠ dataKey⟩

@[simp] theorem policy_setPolicy (configMap : ConfigMap) (text : String) :
    (configMap.setPolicy text).policy = some text := by
  simp [ConfigMap.policy, ConfigMap.setPolicy]

structure UpdateRequest where
  repositories : Option (List String)
  resourceVersion : String
deriving DecidableEq, Repr

inductive Outcome where
  | attempt
  | success
  | failure
  | indeterminate
deriving DecidableEq, Repr

structure Snapshot where
  repositories : List String
  resourceVersion : String
deriving DecidableEq, Repr

structure Response where
  status : Nat
  code : String
  body : Option Snapshot
deriving DecidableEq, Repr

inductive ReadError where
  | api (e : ApiError)
  | invalid
deriving DecidableEq, Repr

section Handler

inductive Call where
  | appendAudit (outcome : Outcome) (policyHash : String)
  | getConfigMap
  | updateConfigMap (resourceVersion : ℕ) (configMap : ConfigMap)

/-- Whether the entry was stored; the ConfigMap and its version; its new version. -/
@[reducible] def Call.Reply : Call → Type
  | .appendAudit _ _ => Bool
  | .getConfigMap => Except ApiError (ℕ × ConfigMap)
  | .updateConfigMap _ _ => Except ApiError ℕ

abbrev services : Interface := ⟨Call, Call.Reply⟩

abbrev Prog := Program services

def call (c : Call) : Prog c.Reply := Program.perform (I := services) c

def writeJSONError (status : Nat) (code : String) : Response := ⟨status, code, none⟩

def k8sError (e : ApiError) : Response := writeJSONError (writeK8sError e).status (writeK8sError e).code

def writeRepoAllowlistReadError : ReadError → Response
  | .api .notFound => writeJSONError 503 "cluster_not_ready"
  | .invalid => writeJSONError 503 "unavailable"
  | .api e => k8sError e

/-- Whether this entry is stored makes no difference. -/
def recordRepoAllowlistAudit (outcome : Outcome) (policyHash : String) (response : Response) :
    Prog Response := do
  let _ ← call (.appendAudit outcome policyHash)
  return response

def succeed (policyHash : String) (snapshot : Snapshot) : Prog Response := do
  if ← call (.appendAudit .success policyHash) then return ⟨200, "", some snapshot⟩
  else return writeJSONError 503 "unavailable"

variable (L : Lowering) (hash : String → String)

def snapshotOf (version : ℕ) (configMap : ConfigMap) : Except ReadError Snapshot :=
  match configMap.policy with
  | none => .error .invalid
  | some raw =>
    match parse L raw with
    | .error _ => .error .invalid
    | .ok repositories => .ok ⟨repositories, version.repr⟩

def loadRepoAllowlistSnapshot : Prog (Except ReadError Snapshot) := do
  match ← call .getConfigMap with
  | .error e => return .error (.api e)
  | .ok (version, configMap) => return snapshotOf L version configMap

/-- The outcome of an update, from what is there now. -/
def outcomeOf (policyHash : String) : Except ReadError Snapshot → Snapshot × Outcome
  | .error _ => (⟨[], ""⟩, .indeterminate)
  | .ok snapshot =>
    match format L snapshot.repositories with
    | .error _ => (⟨[], ""⟩, .indeterminate)
    | .ok formatted => (snapshot, if hash formatted = policyHash then .success else .failure)

def resolveRepoAllowlistUpdate (policyHash : String) : Prog (Snapshot × Outcome) := do
  return outcomeOf L hash policyHash (← loadRepoAllowlistSnapshot L)

def resolve (policyHash : String) (e : ApiError) : Prog Response := do
  let (snapshot, outcome) ← resolveRepoAllowlistUpdate L hash policyHash
  if outcome = .success then succeed policyHash snapshot
  else recordRepoAllowlistAudit outcome policyHash (k8sError e)

def submit (resourceVersion : String) (repositories : List String) (formatted : String) :
    Prog Response := do
  let policyHash := hash formatted
  if !(← call (.appendAudit .attempt policyHash)) then return writeJSONError 503 "unavailable"
  else
    match ← call .getConfigMap with
    | .error e => recordRepoAllowlistAudit .failure policyHash (writeRepoAllowlistReadError (.api e))
    | .ok (version, configMap) =>
      if version.repr ≠ resourceVersion then
        recordRepoAllowlistAudit .failure policyHash (writeJSONError 409 "conflict")
      else
        match ← call (.updateConfigMap version (configMap.setPolicy formatted)) with
        | .error e => resolve L hash policyHash e
        | .ok updated => succeed policyHash ⟨repositories, updated.repr⟩

/-- What is left of a request that is to be submitted. -/
def accept (req : UpdateRequest) : Except Response (List String × String) :=
  match req.repositories with
  | none => .error (writeJSONError 400 "invalid_request")
  | some repositories =>
    if req.resourceVersion = "" then .error (writeJSONError 400 "invalid_request")
    else
      match normalize L repositories with
      | .error _ => .error (writeJSONError 422 "invalid_repo_allowlist")
      | .ok normalized =>
        match format L normalized with
        | .error _ => .error (writeJSONError 500 "internal_error")
        | .ok formatted => .ok (normalized, formatted)

/-- The body is `none` where it could not be decoded. -/
def handleUpdateRepoAllowlist (body : Option UpdateRequest) : Prog Response :=
  match body with
  | none => recordRepoAllowlistAudit .failure "" (writeJSONError 400 "invalid_request")
  | some req =>
    match accept L req with
    | .error response => recordRepoAllowlistAudit .failure "" response
    | .ok (repositories, formatted) => submit L hash req.resourceVersion repositories formatted

end Handler

section Requested

variable {L : Lowering}

/-- The request asks for the policy, from the version, and this is its text. -/
def Requested (L : Lowering) (body : Option UpdateRequest) (version : String)
    (policy : List String) (text : String) : Prop :=
  ∃ req, body = some req ∧ req.resourceVersion = version ∧ accept L req = .ok (policy, text)

variable {req : UpdateRequest} {policy : List String} {text : String}

/-- What is accepted is the normal form of the repositories, and its text. -/
theorem accept_eq_ok (h : accept L req = .ok (policy, text)) :
    ∃ repositories, req.repositories = some repositories ∧
      normalize L repositories = .ok policy ∧ format L policy = .ok text := by
  unfold accept at h
  split at h
  · cases h
  rename_i repositories hr
  split at h
  · cases h
  split at h
  · cases h
  rename_i normalized hn
  split at h
  · cases h
  rename_i formatted hf
  cases h
  exact ⟨repositories, hr, hn, hf⟩

theorem accept_status {response : Response} (h : accept L req = .error response) :
    response.status ≠ 200 := by
  unfold accept at h
  repeat' split at h
  all_goals cases h
  all_goals decide

theorem parse_of_format (h : RepoAllowlist.NormalForm policy) (ht : format L policy = .ok text) :
    parse L text = .ok policy := by
  obtain ⟨text', ht', hp⟩ := h.parse_format (L := L)
  cases ht.symm.trans ht'
  exact hp

variable {body : Option UpdateRequest}

theorem Requested.parse_text {version : String} (h : Requested L body version policy text) :
    parse L text = .ok policy := by
  obtain ⟨req, -, -, ha⟩ := h
  obtain ⟨_, -, hn, hf⟩ := accept_eq_ok ha
  exact parse_of_format (RepoAllowlist.normalForm_of_normalize hn) hf

theorem Requested.unique {version version' text' : String} {policy' : List String}
    (h : Requested L body version policy text) (h' : Requested L body version' policy' text') :
    version = version' ∧ policy = policy' ∧ text = text' := by
  obtain ⟨req, rfl, rfl, ha⟩ := h
  obtain ⟨_, ⟨⟩, rfl, ha'⟩ := h'
  cases ha.symm.trans ha'
  exact ⟨rfl, rfl, rfl⟩

def Holds (L : Lowering) (v : Versioned ConfigMap) (policy : List String) : Prop :=
  ∃ configMap raw, v.current = some configMap ∧ configMap.policy = some raw ∧
    parse L raw = .ok policy

variable {hash : String → String}
variable {version : ℕ} {configMap : ConfigMap}

/-- A read-back that is taken for a success has found the policy. -/
theorem policy_of_outcomeOf (hh : Function.Injective hash) (hp : parse L text = .ok policy)
    (h : (outcomeOf L hash (hash text) (snapshotOf L version configMap)).2 = .success) :
    ∃ raw, configMap.policy = some raw ∧ parse L raw = .ok policy := by
  unfold snapshotOf at h
  split at h
  · cases h
  rename_i raw hrw
  split at h
  · cases h
  rename_i repositories hr
  have hn := RepoAllowlist.normalForm_of_normalize hr
  obtain ⟨formatted, hf, hb⟩ := hn.parse_format (L := L)
  simp only [outcomeOf, hf] at h
  split at h
  · rename_i heq
    cases hh heq
    cases hp.symm.trans hb
    exact ⟨raw, hrw, hr⟩
  · cases h

theorem outcomeOf_setPolicy (hp : parse L text = .ok policy)
    (hf : format L policy = .ok text) :
    (outcomeOf L hash (hash text) (snapshotOf L version (configMap.setPolicy text))).2 = .success
    := by
  simp [snapshotOf, hp, outcomeOf, hf]

end Requested

end Orkano.Dashboard.RepoPolicy
