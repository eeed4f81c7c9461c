import Mathlib.Data.Nat.Notation
import Orkano.Interleave.RelyGuarantee

/-!
The platform's generate-once Secrets and the two programs that seed them: the installer, which
runs kubectl on the node, and the Job in the cluster, which creates through the API.
-/
namespace Orkano.Install

open Interleave

section Specs

structure Values where
  superuserPassword : String
  receiverPassword : String
  dispatcherPassword : String
  dashboardPassword : String
  webhookSecret : String
  bootstrapToken : String
  dashboardEncKey : String
deriving DecidableEq, Repr

structure Spec where
  name : String
  data : List (String × String)
deriving DecidableEq, Repr

def nameSuperuser : String := "orkano-postgres-superuser"
def nameOperatorDB : String := "orkano-operator-db"
def nameReceiverDB : String := "orkano-receiver-db"
def nameDashboardDB : String := "orkano-dashboard-db"
def nameDashboardEncKey : String := "orkano-dashboard-enc-key"
def nameWebhook : String := "orkano-webhook-secret"
def nameBootstrapToken : String := "orkano-bootstrap-token"
def nameGitHubApp : String := "orkano-github-app"
def nameOIDC : String := "orkano-oidc"

def keyPassword : String := "password"
def keyDSN : String := "dsn"
def keyEncKey : String := "key"
def keyWebhookSecret : String := "secret"
def keyTokenSHA256 : String := "token-sha256"

def postgresDSNHost : String := "orkano-postgres.orkano-system.svc"

def roleDSN (role password : String) : String :=
  "postgres://" ++ role ++ ":" ++ password ++ "@" ++ postgresDSNHost ++
    ":5432/orkano?sslmode=disable"

def Values.validate (v : Values) : Option String :=
  ([("SuperuserPassword", v.superuserPassword), ("ReceiverPassword", v.receiverPassword),
    ("DispatcherPassword", v.dispatcherPassword), ("DashboardPassword", v.dashboardPassword),
    ("WebhookSecret", v.webhookSecret), ("BootstrapToken", v.bootstrapToken),
    ("DashboardEncKey", v.dashboardEncKey)].find? fun f => f.2 = "").map Prod.fst

variable (hashToken : String → String)

/-- A Secret with a role's password and address. -/
def roleSpec (name role password : String) : Spec :=
  ⟨name, [(keyPassword, password), (keyDSN, roleDSN role password)]⟩

/-- Only the hash of the bootstrap token is part of the table. -/
def specTable (v : Values) : List Spec :=
  [roleSpec nameSuperuser "orkano" v.superuserPassword,
    roleSpec nameOperatorDB "orkano_dispatcher" v.dispatcherPassword,
    roleSpec nameReceiverDB "orkano_receiver" v.receiverPassword,
    roleSpec nameDashboardDB "orkano_dashboard" v.dashboardPassword,
    ⟨nameDashboardEncKey, [(keyEncKey, v.dashboardEncKey)]⟩,
    ⟨nameWebhook, [(keyWebhookSecret, v.webhookSecret)]⟩,
    ⟨nameBootstrapToken, [(keyTokenSHA256, hashToken v.bootstrapToken)]⟩,
    ⟨nameGitHubApp, []⟩,
    ⟨nameOIDC, []⟩]

def specs (v : Values) : Except String (List Spec) :=
  match v.validate with
  | some field => .error field
  | none => .ok (specTable hashToken v)

end Specs

section Ensure

/-- What `ensureSecrets` returns, also when it stops with an error. -/
structure Seeded (ε : Type) where
  bootstrapToken : String
  changed : Bool
  err : Option ε
deriving DecidableEq, Repr

/-- What `ensureSecrets` runs: a check for whether it exits with 0, an apply that must succeed,
and what is told of a Secret that was created. -/
structure SecretShell (m : Type → Type) (ε : Type) where
  getSecret (name : String) : ExceptT ε m Bool
  applySecret (s : Spec) : ExceptT ε m Unit
  created (name : String) : m Unit

namespace SecretShell

variable {m : Type → Type} [Monad m] {ε : Type} (S : SecretShell m ε)

def createSecretIfAbsent (s : Spec) : ExceptT ε m Bool := do
  if ← S.getSecret s.name then return false
  else do
    S.applySecret s
    return true

/-- The loop of `ensureSecrets`, with the token to print and whether anything changed. -/
def ensureEach (v : Values) : List Spec → String → Bool → m (Seeded ε)
  | [], token, changed => return ⟨token, changed, none⟩
  | s :: rest, token, changed => do
    match ← (S.createSecretIfAbsent s).run with
    | .error e => return ⟨token, changed, some e⟩
    | .ok false => ensureEach v rest token changed
    | .ok true => do
      S.created s.name
      ensureEach v rest (if s.name = nameBootstrapToken then v.bootstrapToken else token) true

/-- `emptyValue` is the error for a value that was not generated. -/
def ensureSecrets (emptyValue : String → ε) (hashToken : String → String) (v : Values) :
    m (Seeded ε) :=
  match specs hashToken v with
  | .error field => return ⟨"", false, some (emptyValue field)⟩
  | .ok table => S.ensureEach v table "" false

end SecretShell

end Ensure

inductive CreateReply where
  | created
  | alreadyExists
  | error
deriving DecidableEq, Repr

inductive Call where
  /-- `kubectl get secret` on the node. -/
  | getSecret (name : String)
  /-- `kubectl apply` on the node. -/
  | applySecret (spec : Spec)
  /-- A create through the API. -/
  | createSecret (spec : Spec)

/-- The existence check gives an exit status, or nothing when the transport fails. -/
@[reducible] def Call.Reply : Call → Type
  | getSecret _ => Option Int
  | applySecret _ => Bool
  | createSecret _ => CreateReply

abbrev node : Interface := ⟨Call, Call.Reply⟩

abbrev Prog := Program node

def call (c : Call) : Prog c.Reply := Program.perform (I := node) c

section Programs

inductive InstallError where
  | emptyValue (field : String)
  | check (name : String)
  | create (name : String)
deriving DecidableEq, Repr

structure SeedResult where
  created : List String
  existed : List String
  err : Option InstallError
deriving DecidableEq, Repr

inductive RunResult where
  | installed (r : Seeded InstallError)
  | seeded (r : SeedResult)
deriving DecidableEq, Repr

def kubectl : SecretShell Prog InstallError where
  getSecret name := do
    match ← call (.getSecret name) with
    | none => throw (.check name)
    | some status => return status = 0
  applySecret s := do
    if !(← call (.applySecret s)) then throw (.create s.name)
  created _ := return

def seedEach : List Spec → List String → List String → Prog SeedResult
  | [], created, existed => return ⟨created, existed, none⟩
  | s :: rest, created, existed => do
    match ← call (.createSecret s) with
    | .created => seedEach rest (created ++ [s.name]) existed
    | .alreadyExists => seedEach rest created (existed ++ [s.name])
    | .error => return ⟨created, existed, some (.create s.name)⟩

variable (hashToken : String → String)

def seed (v : Values) : Prog SeedResult :=
  match specs hashToken v with
  | .error field => return ⟨[], [], some (.emptyValue field)⟩
  | .ok table => seedEach table [] []

def installerRun (v : Values) : Prog RunResult := do
  return .installed (← kubectl.ensureSecrets .emptyValue hashToken v)

def seederRun (v : Values) : Prog RunResult := do
  return .seeded (← seed hashToken v)

end Programs

section Cluster

structure Secret where
  data : List (String × String)
  lastApplied : Option (List String)
deriving DecidableEq, Repr

structure World where
  secrets : String → Option Secret

def World.put (w : World) (name : String) (secret : Secret) : World :=
  ⟨Function.update w.secrets name (some secret)⟩

/-- Applying onto an existing Secret sets the given keys, drops those of the last apply
that are no longer given, and keeps the rest. -/
def Secret.apply (old : Secret) (s : Spec) : Secret where
  data := s.data ++ old.data.filter fun kv =>
    kv.1 ∉ s.data.map Prod.fst && kv.1 ∉ old.lastApplied.getD []
  lastApplied := some (s.data.map Prod.fst)

def World.apply (w : World) (s : Spec) : World :=
  match w.secrets s.name with
  | none => w.put s.name ⟨s.data, some (s.data.map Prod.fst)⟩
  | some old => w.put s.name (old.apply s)

def World.create (w : World) (s : Spec) : CreateReply × World :=
  match w.secrets s.name with
  | none => (.created, w.put s.name ⟨s.data, none⟩)
  | some _ => (.alreadyExists, w)

/-- What is left open: the exit status of a check, and failures. -/
@[reducible] def Call.Choice : Call → Type
  | getSecret _ => Option Int
  | _ => Option Fault

/-- A check exits with 0 only if the Secret exists, and otherwise for any reason. -/
def answer : (c : Call) → c.Choice → World → Option (c.Reply × World)
  | .getSecret _, none, w => some (none, w)
  | .getSecret name, some status, w =>
    if status = 0 ∧ w.secrets name = none then none else some (some status, w)
  | .applySecret s, none, w => some (true, w.apply s)
  | .applySecret _, some .before, w => some (false, w)
  | .applySecret s, some .after, w => some (false, w.apply s)
  | .createSecret s, none, w => some (w.create s)
  | .createSecret _, some .before, w => some (.error, w)
  | .createSecret s, some .after, w => some (.error, (w.create s).2)

def machine : Machine node World where
  Choice := Call.Choice
  answer := answer

/-- Installer and seeder runs, each with its own values, interleaved in any way; any of
them may die at any moment. -/
def seeders (hashToken : String → String) (values : ℕ → Values) : System node World ℕ RunResult where
  exec _ := machine.exec
  env _ _ := False
  restart w w' := w' = w
  starts t p := p = installerRun hashToken (values t) ∨ p = seederRun hashToken (values t)

variable {w w' : World} {s : Spec}

theorem exec_getSecret {name : String} {x : Option Int}
    (h : machine.exec (.getSecret name) w x w') : w' = w := by
  obtain ⟨_ | status, hk⟩ := h
  · cases hk
    rfl
  simp only [machine, answer] at hk
  split at hk
  · cases hk
  · cases hk
    rfl

theorem exec_applySecret {x : Bool} (h : machine.exec (.applySecret s) w x w') :
    (x = false ∧ w' = w) ∨ w' = w.apply s := by
  obtain ⟨_ | _ | _, hk⟩ := h
  · cases hk
    exact .inr rfl
  · cases hk
    exact .inl ⟨rfl, rfl⟩
  · cases hk
    exact .inr rfl

/-- A create stores the data under a free name, or changes nothing. -/
theorem exec_createSecret {x : CreateReply} (h : machine.exec (.createSecret s) w x w') :
    w' = w ∨ w.secrets s.name = none ∧ w' = w.put s.name ⟨s.data, none⟩ := by
  have hc : (w.create s).2 = w ∨
      w.secrets s.name = none ∧ (w.create s).2 = w.put s.name ⟨s.data, none⟩ := by
    unfold World.create
    split
    · rename_i hn
      exact .inr ⟨hn, rfl⟩
    · exact .inl rfl
  obtain ⟨_ | _ | _, hk⟩ := h
  · have hw' : (w.create s).2 = w' := congrArg Prod.snd (Option.some.inj hk)
    exact hw' ▸ hc
  · cases hk
    exact .inl rfl
  · cases hk
    exact hc

end Cluster

end Orkano.Install
