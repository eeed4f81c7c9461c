import Orkano.Install.Files
import Orkano.Install.Manifests
import Orkano.Install.PlatformSecrets
import Orkano.Transport.Runner

/-!
`Apply`: the installer's run on a node, with its commands, progress lines and errors. A policy
that only the Deployment holds is stored as a ConfigMap before anything is written.
-/
namespace Orkano.Installer

open Interleave Program Text Transport Install

structure EnvVar where
  name : String
  value : String
  valueFrom : Bool
deriving DecidableEq, Repr

structure Deployment where
  name : String
  containers : List (List EnvVar)
deriving DecidableEq, Repr

inductive Command where
  /-- The receiver's Deployment, as JSON. -/
  | getReceiver
  | createPolicy (data : String)
  | getPolicy
  | cat (path : String)
  | rm (path : String)
  | mv (source target : String)
  | chmod (mode path : String)
  /-- Bytes are piped into a file, whose directory may be created first. -/
  | tee (mkdir : Bool) (append : Bool) (path : String) (piece : Bytes)
  | applyCRD (path : String)
  | waitCRDs (names : List String) (timeout : String)
  | getNamespace (ns : String)
  | getSecret (name : String)
  | applySecret (spec : Spec)
  | readyReplicas (w : Workload)
deriving DecidableEq, Repr

def k3sBin : String := "/usr/local/bin/k3s"
def systemNS : String := "orkano-system"
def policyName : String := "orkano-repo-allowlist"
def receiverDeploymentName : String := "orkano-receiver"
def legacyRepoAllowlistEnv : String := "ORKANO_REPO_ALLOWLIST"

def encode (s : String) : String := String.ofList (base64 (bytes s))

def repoAllowlistManifest (data : String) : String :=
  "apiVersion: v1\nkind: ConfigMap\nmetadata:\n  name: " ++ policyName ++ "\n  namespace: " ++
    systemNS ++ "\ndata:\n  repositories: " ++ quoted data ++ "\n"

def secretManifest (s : Spec) : String :=
  let head := "apiVersion: v1\nkind: Secret\nmetadata:\n  name: " ++ s.name ++ "\n  namespace: " ++
    systemNS ++ "\ntype: Opaque\n"
  if s.data = [] then head ++ "data: \x7b\x7d\n"
  else head ++ "data:\n" ++ String.join ((s.data.insertionSort fun a b => a.1 ≤ b.1).map
    fun kv => "  " ++ kv.1 ++ ": " ++ encode kv.2 ++ "\n")

/-- The text of a command, with the prefix for privileged ones. -/
def Command.text (pre : String) : Command → String
  | getReceiver => pre ++ k3sBin ++ " kubectl -n " ++ systemNS ++ " get deployment " ++
      receiverDeploymentName ++ " --ignore-not-found=true -o json"
  | createPolicy data => "printf %s '" ++ encode (repoAllowlistManifest data) ++
      "' | base64 -d | " ++ pre ++ k3sBin ++ " kubectl create -f -"
  | getPolicy => pre ++ k3sBin ++ " kubectl -n " ++ systemNS ++ " get configmap " ++ policyName ++
      " -o name"
  | cat path => pre ++ "cat " ++ path
  | rm path => pre ++ "rm -f " ++ path
  | mv source target => pre ++ "mv " ++ source ++ " " ++ target
  | chmod mode path => pre ++ "chmod " ++ mode ++ " " ++ path
  | tee mkdir append path piece =>
    (if mkdir then pre ++ "mkdir -p " ++ pathDir path ++ " && " else "") ++ "printf %s '" ++
      String.ofList (base64 piece) ++ "' | base64 -d | " ++ pre ++ "tee " ++
      (if append then "-a " else "") ++ path ++ " >/dev/null"
  | applyCRD path => pre ++ k3sBin ++ " kubectl apply -f " ++ path
  | waitCRDs names timeout => pre ++ k3sBin ++ " kubectl wait --for=condition=Established " ++
      " ".intercalate (names.map ("crd/" ++ ·)) ++ " --timeout=" ++ timeout
  | getNamespace ns => pre ++ k3sBin ++ " kubectl get namespace " ++ ns ++ " -o name"
  | getSecret name => pre ++ k3sBin ++ " kubectl -n " ++ systemNS ++ " get secret " ++ name ++
      " -o name"
  | applySecret spec => "printf %s '" ++ encode (secretManifest spec) ++ "' | base64 -d | " ++
      pre ++ k3sBin ++ " kubectl apply -f -"
  | readyReplicas w => pre ++ k3sBin ++ " kubectl -n " ++ w.ns ++ " get " ++ w.kind ++ " " ++
      w.name ++ " -o jsonpath='\x7b.status.readyReplicas\x7d'"

def firstLine (s : String) : String := String.ofList (s.toList.takeWhile (· ≠ '\n'))

/-- `newNode`. -/
def Config.shell (c : Config) : Shell Command where
  text := Command.text (if c.useSudo then "sudo " else "")
  package := "install"
  firstLine := firstLine

/-- The rest of what a run depends on: the assets, `json.Unmarshal` of a Deployment, the
text of a duration, the hash of the token, and how often it polls until a timeout. -/
structure Surroundings extends Assets where
  decodeDeployment : String → Except String Deployment
  duration : ℤ → String
  hashToken : String → String
  namespacePolls : ℕ
  readyRounds : ℕ

variable (R : Runner) (X : Surroundings) (c : Config)

/-- The loop over the variables, with the value so far. -/
def scanEnv : List EnvVar → Option String → Except String (Option String)
  | [], raw => .ok raw
  | v :: rest, raw =>
    if v.name ≠ legacyRepoAllowlistEnv then scanEnv rest raw
    else if raw.isSome then .error ("install: legacy receiver Deployment has duplicate " ++
      legacyRepoAllowlistEnv ++ " entries")
    else if v.valueFrom then .error ("install: legacy receiver Deployment " ++
      legacyRepoAllowlistEnv ++ " must be a literal value")
    else scanEnv rest (some v.value)

/-- The entries of a policy that is written with commas. -/
def legacyEntries (raw : String) : List String := (raw.toList.splitOn ',').map String.ofList

def readLegacy (d : Deployment) : Except String (List String) :=
  if d.name ≠ receiverDeploymentName then
    .error ("install: legacy receiver Deployment has name " ++ quoted d.name ++ ", want " ++
      quoted receiverDeploymentName)
  else match scanEnv d.containers.flatten none with
  | .error e => .error e
  | .ok none => .ok []
  | .ok (some raw) =>
    match RepoAllowlist.normalize X.lower (legacyEntries raw) with
    | .error e => .error ("install: legacy receiver repository allowlist: " ++ policyError e)
    | .ok repositories => .ok repositories

/-- The policy that the receiver was started with, if there is a receiver. -/
def legacyReceiverRepoAllowlist : Narration R Command (Option (List String)) := do
  match ← send R c.shell.text .getReceiver with
  | .error e => throw ("install: read legacy receiver repository allowlist: " ++ e)
  | .ok got =>
    if got.exitStatus ≠ 0 then
      throw ("install: read legacy receiver repository allowlist exited " ++
        toString got.exitStatus ++ ": " ++ firstLine got.stderr)
    else if trimSpace got.stdout = "" then return none
    else match X.decodeDeployment got.stdout with
    | .error e => throw ("install: parse legacy receiver Deployment: " ++ e)
    | .ok d =>
      match readLegacy X d with
      | .error e => throw e
      | .ok repositories => return some repositories

def createConfigMapIfAbsent (data : String) : Narration R Command Bool := do
  match ← send R c.shell.text (.createPolicy data) with
  | .error e => throw ("install: create configmap " ++ policyName ++ ": " ++ e)
  | .ok created =>
    if created.exitStatus = 0 then return true
    else match ← send R c.shell.text .getPolicy with
    | .error e => throw ("install: confirm configmap " ++ policyName ++ " after create failed: " ++ e)
    | .ok got =>
      if got.exitStatus = 0 then return false
      else throw ("install: create configmap " ++ policyName ++ " exited " ++
        toString created.exitStatus ++ ": " ++ firstLine created.stderr)

def ensureRepoAllowlist (repositories : List String) : Narration R Command Bool :=
  match RepoAllowlist.format X.lower repositories with
  | .error e => throw ("install: repository allowlist: " ++ policyError e)
  | .ok data => do
    let created ← createConfigMapIfAbsent R c data
    if created then say R ("created configmap " ++ policyName)
    return created

def fileShell : FileShell (Narration R Command) UInt8 where
  tee mkdir append path piece := runOK R c.shell (.tee mkdir append path piece)
  mv source target := runOK R c.shell (.mv source target)
  chmod mode path := runOK R c.shell (.chmod mode path)

def ensureFile (path content mode : String) : Narration R Command Bool := do
  match ← send R c.shell.text (.cat path) with
  | .error e => throw ("install: read " ++ path ++ ": " ++ e)
  | .ok cur =>
    if cur.exitStatus = 0 ∧ cur.stdout = content then return false
    else do
      (fileShell R c).replaceFile path (bytes content) mode
      return true

/-- One turn of `migrateLegacyManifests`. -/
def migrateLegacyManifest (base : String) (f : ManifestFile) : Narration R Command Bool := do
  if f.legacyName = "" then return false
  let legacyPath := pathJoin base f.legacyName
  let currentPath := pathJoin base f.name
  match ← send R c.shell.text (.cat legacyPath) with
  | .error e => throw ("install: read legacy manifest " ++ legacyPath ++ ": " ++ e)
  | .ok legacy =>
    if legacy.exitStatus ≠ 0 then return false
    else match ← send R c.shell.text (.cat currentPath) with
    | .error e => throw ("install: read replacement manifest " ++ currentPath ++ ": " ++ e)
    | .ok current =>
      runOK R c.shell (if current.exitStatus = 0 then .rm legacyPath else .mv legacyPath currentPath)
        ("migrate legacy manifest " ++ f.legacyName)
      say R ("migrated " ++ f.legacyName ++ " to " ++ f.name)
      return true

def migrateLegacyManifests (base : String) : List ManifestFile → Narration R Command Bool
  | [] => return false
  | f :: rest => do
    let changed ← migrateLegacyManifest R c base f
    let others ← migrateLegacyManifests base rest
    return changed || others

def manifestMode : String := "0600"

/-- One manifest, with a line if it was written. -/
def writeManifest (path name content : String) : Narration R Command Bool := do
  let changed ← ensureFile R c path content manifestMode
  if changed then say R ("wrote " ++ name)
  return changed

def writeManifests (base : String) : List ManifestFile → Narration R Command Bool
  | [] => return false
  | f :: rest => do
    let changed ← writeManifest R c (pathJoin base f.name) f.name f.content
    let others ← writeManifests base rest
    return changed || others

def writeCRDs : List CRDManifest → Narration R Command Bool
  | [] => return false
  | crd :: rest => do
    let changed ← writeManifest R c crd.path crd.file.name crd.file.content
    let others ← writeCRDs rest
    return changed || others

def applyCRDs : List CRDManifest → Narration R Command Unit
  | [] => return
  | crd :: rest => do
    runOK R c.shell (.applyCRD crd.path) ("apply CRD " ++ crd.crdName)
    applyCRDs rest

/-- The remote timeout is five seconds shorter, if that is possible. -/
def applyAndWaitCRDs (crds : List CRDManifest) : Narration R Command Unit := do
  applyCRDs R c crds
  let names := crds.map CRDManifest.crdName
  let remote := c.timeout - 5 * 1000000000
  runOK R c.shell (.waitCRDs names (X.duration (if remote ≤ 0 then c.timeout else remote)))
    "wait for CRDs to be established"
  say R ("orkano CRDs established (" ++ ", ".intercalate names ++ ")")

def waitNamespace : ℕ → Narration R Command Unit
  | 0 => throw ("install: namespace " ++ systemNS ++ " not created within " ++ X.duration c.timeout)
  | polls + 1 => do
    match ← send R c.shell.text (.getNamespace systemNS) with
    | .error _ => waitNamespace polls
    | .ok res => if res.exitStatus = 0 then return else waitNamespace polls

/-- Whether `strconv.Atoi` gives at least one. -/
def atLeastOne (s : String) : Bool :=
  let text := (trimSpace s).toList
  let digits := if text.head? = some '+' then text.tail else text
  digits ≠ [] && digits.all Char.isDigit && digits.any (· ≠ '0')

def workloadReady (w : Workload) : Narration R Command (Except String Bool) := do
  match ← send R c.shell.text (.readyReplicas w) with
  | .error e => return .error e
  | .ok res => return .ok (res.exitStatus = 0 && atLeastOne res.stdout)

/-- One round over the workloads; returns those that are not ready. -/
def pollTargets : List Workload → Narration R Command (List Workload)
  | [] => return []
  | w :: rest => do
    match ← workloadReady R c w with
    | .error e => do
      say R ("waiting for " ++ w.kind ++ "/" ++ w.name ++ ": " ++ e)
      return w :: (← pollTargets rest)
    | .ok true => do
      say R (w.kind ++ "/" ++ w.name ++ " is ready")
      pollTargets rest
    | .ok false => return w :: (← pollTargets rest)

def waitReady : ℕ → List Workload → Narration R Command Unit
  | 0, pending => throw ("install: components not ready within " ++ X.duration c.timeout ++ ": " ++
      ", ".intercalate (pending.map fun w => w.ns ++ "/" ++ w.kind ++ "/" ++ w.name))
  | rounds + 1, pending => do
    let still ← pollTargets R c pending
    if still = [] then return
    else waitReady rounds still

abbrev Prog (α : Type) := Program (narrated Command R.Outcome String) α

def secretShell : SecretShell (Program (narrated Command R.Outcome String)) String where
  getSecret name := do
    match ← send R c.shell.text (.getSecret name) with
    | .error e => throw ("install: check secret " ++ name ++ ": " ++ e)
    | .ok got => return got.exitStatus = 0
  applySecret s := runOK R c.shell (.applySecret s) ("create secret " ++ s.name)
  created name := do
    let _ ← (say R ("created secret " ++ name)).run

def ensureSecrets (v : Values) : Prog R (Seeded String) :=
  (secretShell R c).ensureSecrets (fun field => "platformsecrets: " ++ field ++ " is empty")
    X.hashToken v

structure Result where
  changed : Bool
  bootstrapToken : String
deriving DecidableEq, Repr

structure Failed where
  result : Option Result
  message : String
deriving DecidableEq, Repr

abbrev Applying (α : Type) := ExceptT Failed (Program (narrated Command R.Outcome String)) α

/-- What is returned beside an error of this part. -/
def attempt {α : Type} (result : Option Result) (p : Narration R Command α) : Applying R α :=
  ExceptT.adapt (Failed.mk result) p

/-- A part without commands; nothing is returned beside its errors. -/
def check {α : Type} (x : Except String α) : Applying R α :=
  match x with
  | .error e => throw ⟨none, e⟩
  | .ok a => return a

/-- `^[a-z0-9]([-a-z0-9.]*[a-z0-9])?$`. -/
def workloadNameRe (s : String) : Bool :=
  s.toList.all (fun c => isFilenameChar c || c = '-' || c = '.') &&
    s.toList.head?.any isFilenameChar && s.toList.getLast?.any isFilenameChar

def validateTargets : List Workload → Except String Unit
  | [] => .ok ()
  | w :: rest =>
    if !workloadNameRe w.ns || !workloadNameRe w.name then
      .error ("install: invalid readiness target namespace/name " ++ quoted w.ns ++ "/" ++ quoted w.name)
    else if w.kind ∉ ["deployment", "statefulset"] then
      .error ("install: unsupported readiness target kind " ++ quoted w.kind ++
        " (want deployment or statefulset)")
    else validateTargets rest

/-- The checks before the first command: the manifests, and the policy to seed. -/
def prepare : Except String (List ManifestFile × List String) := do
  validateTargets c.readinessTargets
  let files ← writeSet X.toAssets c
  validateManifestFiles files
  match RepoAllowlist.normalize X.lower c.repoAllowlist with
  | .error e => .error ("install: repository allowlist: " ++ policyError e)
  | .ok seed => return (files, seed)

/-- The policy to seed, whether it is in place, and whether that changed anything. A
policy that only the receiver holds is put in place before the receiver can change. -/
structure Policy where
  seed : List String
  ready : Bool
  changed : Bool

def migratePolicy (seed : List String) : Applying R Policy := do
  if c.version ≠ "" ∧ seed = [] then
    match ← attempt R none (legacyReceiverRepoAllowlist R X c) with
    | none => return ⟨[], false, false⟩
    | some repositories => do
      let changed ← attempt R (some ⟨false, ""⟩) (ensureRepoAllowlist R X c repositories)
      return ⟨repositories, true, changed⟩
  else return ⟨seed, false, false⟩

/-- The manifests; reports whether anything changed. -/
def placeManifests (files : List ManifestFile) : Applying R Bool := do
  let migrated ← attempt R none (migrateLegacyManifests R c c.base files)
  let (crds, rest) ← check R (splitCRDManifests X.toAssets c.base files)
  let crdsChanged ← attempt R none (writeCRDs R c crds)
  if crds ≠ [] then attempt R none (applyAndWaitCRDs R X c crds)
  let restChanged ← attempt R none (writeManifests R c c.base rest)
  return migrated || crdsChanged || restChanged

def placePolicy (policy : Policy) (res : Result) : Applying R Result := do
  if policy.ready then return res
  else do
    let created ← attempt R (some res) (ensureRepoAllowlist R X c policy.seed)
    return { res with changed := res.changed || created }

/-- The Secrets with the values that were generated, and the policy. -/
def placeSecrets (generated : Except String Values) (policy : Policy) (changed : Bool) :
    Applying R Result := do
  attempt R none (waitNamespace R X c X.namespacePolls)
  let values ← check R generated
  let seeded ← ExceptT.lift (ensureSecrets R X c values)
  let res : Result := ⟨changed || seeded.changed, seeded.bootstrapToken⟩
  match seeded.err with
  | some e => throw ⟨some res, e⟩
  | none => placePolicy R X c policy res

/-- Without a version there are no components, and nothing to generate for them. -/
def placeComponents (generated : Except String Values) (policy : Policy) (changed : Bool) :
    Applying R Result :=
  if c.version ≠ "" then placeSecrets R X c generated policy changed
  else return ⟨changed, ""⟩

def awaitTargets (res : Result) : Applying R Unit := do
  if c.readinessTargets ≠ [] then
    attempt R (some res) (waitReady R X c X.readyRounds c.readinessTargets)

/-- `Apply`. -/
def apply (generated : Except String Values) : Applying R Result := do
  let (files, seed) ← check R (prepare X c)
  let policy ← migratePolicy R X c seed
  let placed ← placeManifests R X c files
  let res ← placeComponents R X c generated policy (policy.changed || placed)
  awaitTargets R X c res
  return res

end Orkano.Installer
