import Mathlib.Data.List.Sort
import Orkano.Interleave.RelyGuarantee
import Orkano.Operator.Api

/-!
The handlers that create objects in the apps namespace or write Secrets there, as programs over
calls to the API server and to the lock that guards cross-kind names.
-/
namespace Orkano.Dashboard.Resources

open Interleave Operator

inductive Kind where
  | app
  | postgres
  | mongo
  | secretStore
  | externalSecret
deriving DecidableEq, Repr

structure Object where
  kind : Kind
  name : String
deriving DecidableEq, Repr

structure EnvVar where
  name : String
  value : String
  secretRef : Option (String × String)
deriving DecidableEq, Repr

structure Secret where
  owner : Object
  data : List (String × String)
deriving DecidableEq, Repr

inductive ApiError where
  | notFound
  | alreadyExists
  | conflict
  | invalid
  | badRequest
  | forbidden
  | unauthorized
  | unavailable
  | noMatch
  | other
deriving DecidableEq, Repr

structure Response where
  status : Nat
  code : String
deriving DecidableEq, Repr

def writeK8sError : ApiError → Response
  | .notFound => ⟨404, "not_found"⟩
  | .alreadyExists => ⟨409, "already_exists"⟩
  | .conflict => ⟨409, "conflict"⟩
  | .invalid => ⟨422, "invalid"⟩
  | .badRequest => ⟨400, "bad_request"⟩
  | .forbidden => ⟨403, "forbidden"⟩
  | .unauthorized => ⟨401, "unauthorized"⟩
  | .unavailable => ⟨503, "unavailable"⟩
  | .noMatch => ⟨503, "cluster_not_ready"⟩
  | .other => ⟨500, "internal_error"⟩

def writeVaultK8sError : ApiError → Response
  | .noMatch => ⟨503, "secrets_vault_not_installed"⟩
  | e => writeK8sError e

def maxObjectNameLen : Nat := 253
def maxEnvVars : Nat := 64
def maxSyncKeys : Nat := 64

def credentialsSuffix : String := "-credentials"
def envSecretSuffix : String := "-env"

def envSecretName (app : String) : String := app ++ "-env"
def credentialsName (store : String) : String := store ++ credentialsSuffix

/-- A DNS-1123 subdomain of at most 253 characters. -/
def validResourceName (name : String) : Bool := isSubdomain name && name.length ≤ 253

def hasSuffix (name suffix : String) : Bool := suffix.toList.isSuffixOf name.toList

def cutSuffix (name suffix : String) : Option String :=
  if hasSuffix name suffix then
    some (String.ofList (name.toList.take (name.toList.length - suffix.toList.length)))
  else none

def reserved (name : String) : Bool :=
  hasSuffix name credentialsSuffix || hasSuffix name envSecretSuffix

def isEnvName (name : String) : Bool :=
  match name.toList with
  | [] => false
  | c :: cs => (c.isAlpha || c = '_') && cs.all fun c => c.isAlphanum || c = '_'

inductive Call where
  | lock
  | unlock
  | get (o : Object)
  | create (o : Object)
  | update (o : Object)
  | delete (o : Object)
  | getApp (name : String)
  | updateApp (name : String) (env : List EnvVar)
  | createSecret (name : String) (secret : Secret)
  | updateSecret (name : String) (secret : Secret)

@[reducible] def Call.Reply : Call → Type
  | lock | unlock => Unit
  | getApp _ => Except ApiError (List EnvVar)
  | _ => Except ApiError Unit

abbrev apiServer : Interface := ⟨Call, Call.Reply⟩

abbrev Prog := Program apiServer

def call (c : Call) : Prog c.Reply := Program.perform (I := apiServer) c

structure Config where
  features : List Feature
  /-- Whether `url.Parse` gives an https address with a host. -/
  httpsHost : String → Bool
  /-- Whether `time.ParseDuration` gives a positive duration. -/
  positiveDuration : String → Bool

variable (cfg : Config)

def topLevelNameKinds : List Kind := [.app, .postgres, .mongo]

/-- Whether the object exists; where that is tolerated, a kind that is not installed
has no objects. -/
def probe (o : Object) (tolerant : Bool) : Prog (Except ApiError Bool) := do
  match ← call (.get o) with
  | .ok _ => return .ok true
  | .error e =>
    if e = .notFound || (tolerant && e = .noMatch) then return .ok false else return .error e

/-- The first of the kinds, other than the requested one, that has an object of the
name. -/
def conflictingAmong (name : String) (requested : Kind) :
    List Kind → Prog (Except ApiError (Option Kind))
  | [] => return .ok none
  | kind :: kinds =>
    if kind = requested then conflictingAmong name requested kinds
    else do
      match ← probe ⟨kind, name⟩ false with
      | .ok true => return .ok (some kind)
      | .ok false => conflictingAmong name requested kinds
      | .error e => return .error e

def conflictingResourceKind (name : String) (requested : Kind) :
    Prog (Except ApiError (Option Kind)) :=
  conflictingAmong name requested topLevelNameKinds

/-- Whether a sync, or a store's credentials, has the Secret name already. -/
def esoClaimsSecretName (name : String) : Prog (Except ApiError Bool) := do
  match ← probe ⟨.externalSecret, name⟩ true with
  | .ok false =>
    match cutSuffix name credentialsSuffix with
    | none => return .ok false
    | some base => if base = "" then return .ok false else probe ⟨.secretStore, base⟩ true
  | claimed => return claimed

def createObject (o : Object) : Prog Response := do
  match ← call (.create o) with
  | .ok _ => return ⟨201, ""⟩
  | .error e => return writeK8sError e

/-- Refuse a name that a sync or a store's credentials has. -/
def refuseClaimed (name : String) (next : Prog Response) : Prog Response := do
  match ← esoClaimsSecretName name with
  | .error e => return writeK8sError e
  | .ok true => return ⟨409, "name_conflict"⟩
  | .ok false => next

def refuseConflicting (kind : Kind) (name : String) (next : Prog Response) : Prog Response := do
  match ← conflictingResourceKind name kind with
  | .error e => return writeK8sError e
  | .ok (some _) => return ⟨409, "name_in_use"⟩
  | .ok none => next

def locked (p : Prog Response) : Prog Response := do
  let _ ← call .lock
  let response ← p
  let _ ← call .unlock
  return response

def handleCreateApp (app : App) : Prog Response :=
  if !validResourceName app.name then return ⟨400, "invalid_name"⟩
  else if (validateApp cfg.features app).isSome then return ⟨403, "feature_disabled"⟩
  else locked (refuseConflicting .app app.name (createObject ⟨.app, app.name⟩))

/-- A request carries the name, and whether it turns on the database's web console. -/
def handleCreatePostgres (name : String) (pgweb : Bool) : Prog Response :=
  if !validResourceName name then return ⟨400, "invalid_name"⟩
  else if pgweb then return ⟨400, "pgweb_requires_step_up"⟩
  else locked (refuseConflicting .postgres name
    (refuseClaimed name (createObject ⟨.postgres, name⟩)))

def handleCreateMongo (name : String) (mongoExpress : Bool) : Prog Response :=
  if !validResourceName name then return ⟨400, "invalid_name"⟩
  else if mongoExpress then return ⟨400, "mongo_express_requires_step_up"⟩
  else locked (refuseConflicting .mongo name (refuseClaimed name (createObject ⟨.mongo, name⟩)))

structure StoreRequest where
  name : String
  server : String
  path : String
  version : String
  token : String
deriving DecidableEq, Repr

/-- An error code, or nothing. An empty version means `v2`; it is not read again. -/
def validateStoreRequest (req : StoreRequest) : Option String :=
  if !validResourceName req.name || (credentialsName req.name).length > maxObjectNameLen ||
      reserved req.name then some "invalid_name"
  else if !cfg.httpsHost req.server then some "vault_server_must_be_https"
  else if req.path = "" || req.path.length > 1024 then some "invalid_vault_path"
  else if req.version = "" || req.version = "v1" || req.version = "v2" then none
  else some "invalid_vault_version"

def credentialsNameTaken (store : String) : Prog (Except ApiError Bool) :=
  probe ⟨.postgres, credentialsName store⟩ false

/-- Create an object, or replace it whole if it exists and that is allowed. -/
def createOrUpdate {m : Type → Type} [Monad m] (allowExisting : Bool)
    (create update : m (Except ApiError Unit)) : m (Except ApiError Unit) := do
  match ← create with
  | .ok _ => return .ok ()
  | .error e =>
    if !allowExisting || e ≠ .alreadyExists then return .error e
    else update

def writeSecret (name : String) (secret : Secret) (allowExisting : Bool) :
    Prog (Except ApiError Unit) :=
  createOrUpdate allowExisting (call (.createSecret name secret)) (call (.updateSecret name secret))

def writeCredentialsSecret (store token : String) (allowExisting : Bool) :
    Prog (Except ApiError Unit) :=
  writeSecret (credentialsName store) ⟨⟨.secretStore, store⟩, [("token", token)]⟩ allowExisting

def handleCreateSecretStore (req : StoreRequest) : Prog Response :=
  match validateStoreRequest cfg req with
  | some code => return ⟨400, code⟩
  | none =>
    if req.token = "" then return ⟨400, "missing_token"⟩
    else do
      match ← credentialsNameTaken req.name with
      | .error e => return writeK8sError e
      | .ok true => return ⟨409, "credentials_name_taken"⟩
      | .ok false =>
        match ← call (.create ⟨.secretStore, req.name⟩) with
        | .error e => return writeVaultK8sError e
        | .ok _ =>
          match ← writeCredentialsSecret req.name req.token false with
          | .ok _ => return ⟨201, ""⟩
          | .error e =>
            let _ ← call (.delete ⟨.secretStore, req.name⟩)
            return if e = .alreadyExists then ⟨409, "credentials_name_taken"⟩
              else writeVaultK8sError e

/-- The token is optional; without one only the store's own spec is replaced. -/
def updateStore (req : StoreRequest) : Prog Response := do
  match ← call (.get ⟨.secretStore, req.name⟩) with
  | .error e => return writeVaultK8sError e
  | .ok _ =>
    match ← call (.update ⟨.secretStore, req.name⟩) with
    | .error e => return writeVaultK8sError e
    | .ok _ =>
      if req.token = "" then return ⟨200, ""⟩
      else do
        match ← writeCredentialsSecret req.name req.token true with
        | .error e => return writeVaultK8sError e
        | .ok _ => return ⟨200, ""⟩

def handleUpdateSecretStore (req : StoreRequest) : Prog Response :=
  match validateStoreRequest cfg req with
  | some code => return ⟨400, code⟩
  | none =>
    if req.token = "" then updateStore req
    else do
      match ← credentialsNameTaken req.name with
      | .error e => return writeK8sError e
      | .ok true => return ⟨409, "credentials_name_taken"⟩
      | .ok false => updateStore req

structure SyncKey where
  secretKey : String
  remoteKey : String
deriving DecidableEq, Repr

structure ExternalSecretRequest where
  name : String
  storeName : String
  refreshInterval : String
  keys : List SyncKey
deriving DecidableEq, Repr

/-- Keys are names of environment variables without duplicates. -/
def validSyncKeys : List SyncKey → List String → Bool
  | [], _ => true
  | k :: ks, seen =>
    isEnvName k.secretKey && k.secretKey ∉ seen && k.remoteKey ≠ "" && k.remoteKey.length ≤ 2048 &&
      validSyncKeys ks (k.secretKey :: seen)

def validateExternalSecretRequest (req : ExternalSecretRequest) : Option String :=
  if !validResourceName req.name || req.name.length > maxObjectNameLen then some "invalid_name"
  else if reserved req.name then some "reserved_name"
  else if !cfg.positiveDuration (if req.refreshInterval = "" then "1h" else req.refreshInterval) then
    some "invalid_refresh_interval"
  else if req.keys = [] || req.keys.length > maxSyncKeys || !validSyncKeys req.keys [] then
    some "invalid_keys"
  else none

def handleCreateExternalSecret (req : ExternalSecretRequest) : Prog Response :=
  match validateExternalSecretRequest cfg req with
  | some code => return ⟨400, code⟩
  | none => do
    match ← probe ⟨.postgres, req.name⟩ true with
    | .ok true => return ⟨409, "name_conflict"⟩
    | .ok false =>
      match ← call (.get ⟨.secretStore, req.storeName⟩) with
      | .error e => return if e = .notFound then ⟨400, "unknown_store"⟩ else writeVaultK8sError e
      | .ok _ =>
        match ← call (.create ⟨.externalSecret, req.name⟩) with
        | .ok _ => return ⟨201, ""⟩
        | .error e => return writeVaultK8sError e
    | .error e => return writeK8sError e

/-- The names in order, if all are names of environment variables. -/
def sortedEnvKeys (secrets : List (String × String)) : Option (List String) :=
  if secrets.all fun kv => kv.1.length ≤ 253 && isEnvName kv.1 then
    some ((secrets.map Prod.fst).insertionSort fun a b => a ≤ b)
  else none

/-- Managed keys become references into the App's Secret; other entries stay. -/
def reconcileEnvRefs (env : List EnvVar) (secretName : String) (keys : List String) :
    List EnvVar :=
  (env.filter fun e => e.name ∉ keys && !e.secretRef.any fun ref => ref.1 = secretName) ++
    keys.map fun k => ⟨k, "", some (secretName, k)⟩

def writeEnvSecret (app : String) (secrets : List (String × String)) :
    Prog (Except ApiError Unit) :=
  writeSecret (envSecretName app) ⟨⟨.app, app⟩, secrets⟩ true

/-- The calls of `handleSetEnv`: an App is fetched as an `α`, its Secret is written, and the
variables are put back. -/
structure EnvCalls (m : Type → Type) (α : Type) where
  getApp : m (Except ApiError α)
  env : α → List EnvVar
  writeSecret : m (Except ApiError Unit)
  putBack : α → List EnvVar → m Response

def EnvCalls.setEnv {m : Type → Type} [Monad m] {α : Type} (C : EnvCalls m α) (name : String)
    (secrets : List (String × String)) : m Response :=
  if (envSecretName name).length > maxObjectNameLen then return ⟨400, "app_name_too_long"⟩
  else match sortedEnvKeys secrets with
  | none => return ⟨400, "invalid_env"⟩
  | some keys => do
    match ← C.getApp with
    | .error e => return writeK8sError e
    | .ok app =>
      let newEnv := reconcileEnvRefs (C.env app) (envSecretName name) keys
      if newEnv.length > maxEnvVars then return ⟨400, "env_limit_exceeded"⟩
      else do
        match ← C.writeSecret with
        | .error e => return writeK8sError e
        | .ok _ => C.putBack app newEnv

def handleSetEnv (name : String) (secrets : List (String × String)) : Prog Response :=
  EnvCalls.setEnv
    { getApp := call (.getApp name)
      env := id
      writeSecret := writeEnvSecret name secrets
      putBack := fun _ newEnv => do
        match ← call (.updateApp name newEnv) with
        | .error e => return writeK8sError e
        | .ok _ => return ⟨200, ""⟩ } name secrets

inductive Request where
  | createApp (app : App)
  | createPostgres (name : String) (pgweb : Bool)
  | createMongo (name : String) (mongoExpress : Bool)
  | createSecretStore (req : StoreRequest)
  | updateSecretStore (req : StoreRequest)
  | createExternalSecret (req : ExternalSecretRequest)
  | setEnv (app : String) (secrets : List (String × String))

def handleRequest : Request → Prog Response
  | .createApp app => handleCreateApp cfg app
  | .createPostgres name pgweb => handleCreatePostgres name pgweb
  | .createMongo name mongoExpress => handleCreateMongo name mongoExpress
  | .createSecretStore req => handleCreateSecretStore cfg req
  | .updateSecretStore req => handleUpdateSecretStore cfg req
  | .createExternalSecret req => handleCreateExternalSecret cfg req
  | .setEnv app secrets => handleSetEnv app secrets

end Orkano.Dashboard.Resources
