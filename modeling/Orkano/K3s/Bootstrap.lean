import Orkano.Node.Commands
import Orkano.Text.Quote

/-!
The bootstrap of a hardened k3s server (`internal/k3s`). Whether the service restarts is decided
from what this run changed.
-/

namespace Orkano.K3s

open Interleave Program Text Node

structure Config where
  nodeAddress : String
  extraTLSSANs : List String
  serverURL : String
  token : String
  minReadyNodes : ℤ
  k3sVersion : String
  snapshotCron : String
  snapshotRetention : ℤ
deriving DecidableEq, Repr

/-- `DefaultK3sVersion`. -/
def defaultK3sVersion : String := "v1.35.5+k3s1"

/-- `DefaultSnapshotCron`. -/
def defaultSnapshotCron : String := "0 */12 * * *"

/-- `DefaultSnapshotRetention`. -/
def defaultSnapshotRetention : ℤ := 5

namespace Config

variable (c : Config)

def version : String := if c.k3sVersion = "" then defaultK3sVersion else c.k3sVersion

def cron : String := if c.snapshotCron = "" then defaultSnapshotCron else c.snapshotCron

def retention : ℤ :=
  if c.snapshotRetention ≤ 0 then defaultSnapshotRetention else c.snapshotRetention

def readyNodes : ℤ := if c.minReadyNodes ≤ 0 then 1 else c.minReadyNodes

def tlsSANs : List String := c.nodeAddress :: c.extraTLSSANs

end Config

/-- What the template of `config.yaml` is executed with. -/
structure ConfigData where
  tlsSANs : List String
  snapshotCron : String
  snapshotRetention : ℤ
  serverURL : String
  token : String

/-- The embedded files, and the text of `config.yaml`. -/
structure Templates where
  sysctlConf : String
  auditYAML : String
  psaYAML : String
  render : ConfigData → String

def Templates.configYAML (t : Templates) (c : Config) : String :=
  t.render ⟨c.tlsSANs, c.cron, c.retention, c.serverURL, c.token⟩

/-- A regular expression of the form `^[class]+$`. -/
def allOf (inClass : Char → Bool) (s : String) : Bool := s ≠ "" && s.toList.all inClass

def hostRe : String → Bool := allOf fun c => c.isAlphanum || c ∈ ['.', '_', '-']

def cronRe : String → Bool := allOf fun c => c.isAlphanum || c ∈ [' ', '@', '*', '/', ',', '-']

def tokenRe : String → Bool := allOf fun c => c.isAlphanum || c ∈ [':', '.', '_', '-']

def digits : List Char → Option (List Char)
  | [] => none
  | c :: cs => if c.isDigit then some (cs.dropWhile Char.isDigit) else none

def literal (word : String) (cs : List Char) : Option (List Char) :=
  if word.toList <+: cs then some (cs.drop word.length) else none

/-- What follows a text of the form `v\d+\.\d+\.\d+\+k3s\d+`. -/
def matchVersion (cs : List Char) : Option (List Char) :=
  literal "v" cs >>= digits >>= literal "." >>= digits >>= literal "." >>= digits >>=
    literal "+k3s" >>= digits

def versionRe (s : String) : Bool := matchVersion s.toList = some []

/-- `installedVersionRe.FindString`: the leftmost version in a text, or nothing. -/
def findVersion : List Char → List Char
  | [] => []
  | c :: cs =>
    match matchVersion (c :: cs) with
    | some rest => (c :: cs).take (cs.length + 1 - rest.length)
    | none => findVersion cs

def installedVersion (out : String) : String := String.ofList (findVersion out.toList)

example : installedVersion "k3s version v1.35.5+k3s1 (5b1f2a3c)\ngo version go1.24.11" =
    defaultK3sVersion := by decide +kernel

/-- `^https://[A-Za-z0-9._-]+:[0-9]+$`. -/
def serverURLRe (s : String) : Bool :=
  match literal "https://" s.toList with
  | none => false
  | some rest =>
    let port := rest.reverse.takeWhile Char.isDigit
    match rest.reverse.dropWhile Char.isDigit with
    | ':' :: host => port ≠ [] && hostRe (String.ofList host.reverse)
    | _ => false

def validate (c : Config) : Option String :=
  if !hostRe c.nodeAddress then
    some ("k3s: invalid node address " ++ quoted c.nodeAddress ++ " (hostname or IPv4 only)")
  else if let some san := c.extraTLSSANs.find? (!hostRe ·) then
    some ("k3s: invalid TLS SAN " ++ quoted san)
  else if !versionRe c.version then
    some ("k3s: invalid k3s version " ++ quoted c.version ++ " (want vX.Y.Z+k3sN)")
  else if !cronRe c.cron then
    some ("k3s: invalid snapshot schedule " ++ quoted c.cron)
  else if c.serverURL = "" then none
  else if !serverURLRe c.serverURL then
    some ("k3s: invalid join server URL " ++ quoted c.serverURL ++ " (want https://host:port)")
  else if c.token = "" then
    some "k3s: a join token is required when ServerURL is set"
  else if !tokenRe c.token then
    some "k3s: join token has an unexpected format"
  else none

def pathConfig : String := "/etc/rancher/k3s/config.yaml"
def pathAudit : String := "/var/lib/rancher/k3s/server/audit.yaml"
def pathPSA : String := "/var/lib/rancher/k3s/server/psa.yaml"
def pathAuditLogDir : String := "/var/lib/rancher/k3s/server/logs"
def pathToken : String := "/var/lib/rancher/k3s/server/token"
def pathSysctl : String := "/etc/sysctl.d/90-kubelet.conf"
def pathKubeconfig : String := "/etc/rancher/k3s/k3s.yaml"
def pathAuditLog : String := "/var/lib/rancher/k3s/server/logs/audit.log"

def detectInstalled : Action (Option String) := do
  match ← run .k3sVersion with
  | none => throw (.transport "k3s: probe installed version")
  | some out => return if out.exit ≠ 0 then none else some (installedVersion out.stdout)

def applyHostPrereqs (t : Templates) (installed : Option String) : Action Bool := do
  let changed ← ensureFile "k3s" pathSysctl t.sysctlConf "0644"
  if changed || installed.isNone then
    runOK "k3s" (.sysctl pathSysctl) "apply kernel parameters"
  runOK "k3s" (.mkdir pathAuditLogDir) "create audit log directory"
  let audit ← ensureFile "k3s" pathAudit t.auditYAML "0600"
  let psa ← ensureFile "k3s" pathPSA t.psaYAML "0600"
  return changed || audit || psa

def installOrConverge (t : Templates) (c : Config) (installed : Option String) : Action Bool := do
  let configChanged ← ensureFile "k3s" pathConfig (t.configYAML c) "0600"
  if installed ≠ some c.version then
    runOK "k3s" (.installK3s c.version) "install k3s"
    return true
  if configChanged then
    runOK "k3s" .restart "restart k3s"
    return true
  match ← run .isActive with
  | none => throw (.transport "k3s: check service state")
  | some out =>
    if trimSpace out.stdout ≠ "active" then
      runOK "k3s" .start "start k3s"
      return true
    return false

def fields (line : List Char) : List (List Char) :=
  (line.splitOnP isSpace).filter (· ≠ [])

def countReady (out : String) : ℕ :=
  ((out.toList.splitOn '\n').filter fun line => (fields line)[1]? = some "Ready".toList).length

/-- Polls until enough nodes are ready, or `polls` times until the deadline. -/
def waitReady (c : Config) : ℕ → Action Unit
  | 0 => throw (.refused ("k3s: fewer than " ++ toString c.readyNodes ++
      " node(s) became Ready"))
  | polls + 1 => do
    match ← run (.query .nodes) with
    | none => waitReady c polls
    | some out =>
      if out.exit = 0 ∧ c.readyNodes ≤ countReady out.stdout then return
      waitReady c polls

def following (key : List Char) : List Char → Option (List Char)
  | [] => none
  | c :: cs => if key <+: c :: cs then some ((c :: cs).drop key.length) else following key cs

def encryptionStatus (out : String) : String :=
  match (out.toList.splitOn '\n').findSome? (following "Encryption Status:".toList) with
  | some rest => trimSpace (String.ofList rest)
  | none => ""

/-- `test -f` of the audit log, until it is there. -/
def auditLogPresent : ℕ → Action Bool
  | 0 => return false
  | attempts + 1 => do
    match ← run (.query .auditLog) with
    | none => throw (.transport "k3s: check audit log")
    | some out => if out.exit = 0 then return true else auditLogPresent attempts

/-- The audit log is present whenever `verify` succeeds. -/
def verify : Action String := do
  match ← run (.query .encryptStatus) with
  | none => throw (.transport "k3s: check secrets encryption")
  | some out =>
    let status := encryptionStatus out.stdout
    if out.exit ≠ 0 then throw (.exited "k3s: secrets-encrypt status" out.exit)
    else if status.toList.map Char.toLower ≠ "enabled".toList then
      throw (.refused ("k3s: secrets encryption is not enabled (status: " ++ quoted status ++ ")"))
    else if ← auditLogPresent 3 then return status
    else throw (.refused ("k3s: audit log " ++ pathAuditLog ++
      " not found; auditing may not be active"))

/-- `strings.ReplaceAll`; the number counts what is left of an occurrence. -/
def replaceAll (old new : List Char) : ℕ → List Char → List Char
  | _, [] => []
  | skip + 1, _ :: cs => replaceAll old new skip cs
  | 0, c :: cs =>
    if old <+: c :: cs then new ++ replaceAll old new (old.length - 1) cs
    else c :: replaceAll old new 0 cs

def localServer : String := "https://127.0.0.1:6443"

def fetchKubeconfig (c : Config) : Action String := do
  match ← run (.cat pathKubeconfig) with
  | none => throw (.transport "k3s: read kubeconfig")
  | some out =>
    let remote := ("https://" ++ c.nodeAddress ++ ":6443").toList
    let kubeconfig := replaceAll localServer.toList remote 0 out.stdout.toList
    if out.exit ≠ 0 then throw (.exited "k3s: read kubeconfig" out.exit)
    else if (following remote kubeconfig).isSome then return String.ofList kubeconfig
    else throw (.refused ("k3s: kubeconfig did not contain the expected server URL " ++
      quoted localServer ++ " to rewrite"))

def fetchToken (c : Config) : Action String := do
  if c.serverURL ≠ "" then return ""
  else match ← run (.cat pathToken) with
    | none => throw (.transport "k3s: read cluster token")
    | some out =>
      let token := trimSpace out.stdout
      if out.exit ≠ 0 then throw (.exited "k3s: read cluster token" out.exit)
      else if tokenRe token then return token
      else throw (.refused "k3s: cluster token file had unexpected contents")

structure Result where
  alreadyInstalled : Bool
  changed : Bool
  version : String
  secretsEncryption : String
  auditLogPresent : Bool
  kubeconfig : String
  token : String
deriving DecidableEq, Repr

/-- `Bootstrap`, with the number of polls until the ready timeout. -/
def bootstrap (t : Templates) (c : Config) (polls : ℕ) : Action Result :=
  match validate c with
  | some message => throw (.refused message)
  | none => do
    let installed ← detectInstalled
    let prepared ← applyHostPrereqs t installed
    let converged ← installOrConverge t c installed
    waitReady c polls
    let status ← verify
    let kubeconfig ← fetchKubeconfig c
    let token ← fetchToken c
    return ⟨installed.isSome, prepared || converged, c.version, status, true, kubeconfig, token⟩

end Orkano.K3s
