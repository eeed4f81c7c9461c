import Orkano.K3s.Bootstrap
import Orkano.Transport.Runner

/-!
The bootstrap of a k3s server with every text that leaves it: the shell commands, the
progress lines and the errors. Without the texts it is the bootstrap that acts on a node.
-/
namespace Orkano.K3s.Progress

open Interleave Program Text Transport

inductive Command where
  | cat (path : String)
  | write (path content mode : String)
  | sysctl (path : String)
  | mkdir (path : String)
  | k3sVersion
  | installK3s (version : String)
  | restart
  | isActive
  | start
  | getNodes
  | encryptStatus
  | testAuditLog
deriving DecidableEq, Repr

def Command.node : Command → Node.Command
  | cat path => .cat path
  | write path content mode => .write path content mode
  | sysctl path => .sysctl path
  | mkdir path => .mkdir path
  | k3sVersion => .k3sVersion
  | installK3s version => .installK3s version
  | restart => .restart
  | isActive => .isActive
  | start => .start
  | getNodes => .query .nodes
  | encryptStatus => .query .encryptStatus
  | testAuditLog => .query .auditLog

def installURL : String := "https://get.k3s.io"
def k3sBin : String := "/usr/local/bin/k3s"

def dirOf (path : String) : String :=
  String.ofList ((path.toList.reverse.dropWhile (· ≠ '/')).drop 1).reverse

/-- The text of a command, with the prefix for privileged ones. -/
def Command.text (pre : String) : Command → String
  | cat path => pre ++ "cat " ++ path
  | write path content mode =>
    pre ++ "mkdir -p " ++ dirOf path ++ " && printf %s '" ++
      String.ofList (base64 (bytes content)) ++ "' | base64 -d | " ++ pre ++ "tee " ++ path ++
      " >/dev/null && " ++ pre ++ "chmod " ++ mode ++ " " ++ path
  | sysctl path => pre ++ "sysctl -p " ++ path
  | mkdir path => pre ++ "mkdir -p -m 700 " ++ path
  | k3sVersion => k3sBin ++ " --version"
  | installK3s version =>
    "curl -sfL " ++ installURL ++ " | INSTALL_K3S_VERSION='" ++ version ++ "' sh -s - server"
  | restart => pre ++ "systemctl restart k3s"
  | isActive => pre ++ "systemctl is-active k3s"
  | start => pre ++ "systemctl start k3s"
  | getNodes => pre ++ k3sBin ++ " kubectl get nodes --no-headers"
  | encryptStatus => pre ++ k3sBin ++ " secrets-encrypt status"
  | testAuditLog => pre ++ "test -f " ++ pathAuditLog

def firstLine (s : String) : String :=
  (((s.toList.splitOn '\n').map fun line => trimSpace (String.ofList line)).find? (· ≠ "")).getD ""

/-- How the bootstrap is run: with `sudo` or as root, and how long it waits for the nodes.
The timeout and the error of the expired wait appear in a message. -/
structure Options where
  useSudo : Bool
  polls : ℕ
  readyTimeout : String
  expired : String

def Options.shell (o : Options) : Shell Command where
  text := Command.text (if o.useSudo then "sudo " else "")
  package := "k3s"
  firstLine := firstLine

section Bootstrap

variable (R : Runner) (o : Options)

def detectInstalled : Narration R Command (Option String) := do
  match ← send R o.shell.text .k3sVersion with
  | .error e => throw ("k3s: probe installed version: " ++ e)
  | .ok res => return if res.exitStatus ≠ 0 then none else some (installedVersion res.stdout)

def ensureFile (path content mode : String) : Narration R Command Bool := do
  match ← send R o.shell.text (.cat path) with
  | .error e => throw ("k3s: read " ++ path ++ ": " ++ e)
  | .ok cur =>
    if cur.exitStatus = 0 ∧ cur.stdout = content then return false
    else do
      runOK R o.shell (.write path content mode) ("write " ++ path)
      say R ("wrote " ++ path)
      return true

def applyHostPrereqs (t : Templates) (installed : Option String) : Narration R Command Bool := do
  let changed ← ensureFile R o pathSysctl t.sysctlConf "0644"
  if changed || installed.isNone then
    runOK R o.shell (.sysctl pathSysctl) "apply kernel parameters"
  runOK R o.shell (.mkdir pathAuditLogDir) "create audit log directory"
  let audit ← ensureFile R o pathAudit t.auditYAML "0600"
  let psa ← ensureFile R o pathPSA t.psaYAML "0600"
  return changed || audit || psa

/-- What follows the write of `config.yaml`. -/
def converge (c : Config) (installed : Option String) (configChanged : Bool) :
    Narration R Command Bool := do
  if installed ≠ some c.version then
    match installed with
    | some version => say R ("upgrading k3s " ++ version ++ " -> " ++ c.version)
    | none => say R ("installing k3s " ++ c.version)
    runOK R o.shell (.installK3s c.version) "install k3s"
    return true
  if configChanged then
    say R "configuration changed; restarting k3s"
    runOK R o.shell .restart "restart k3s"
    return true
  match ← send R o.shell.text .isActive with
  | .error e => throw ("k3s: check service state: " ++ e)
  | .ok res =>
    if trimSpace res.stdout ≠ "active" then
      say R "k3s service not active; starting"
      runOK R o.shell .start "start k3s"
      return true
    return false

def installOrConverge (t : Templates) (c : Config) (installed : Option String) :
    Narration R Command Bool := do
  let configChanged ← ensureFile R o pathConfig (t.configYAML c) "0600"
  converge R o c installed configChanged

def waitReady (c : Config) : ℕ → Narration R Command Unit
  | 0 => throw ("k3s: fewer than " ++ toString c.readyNodes ++ " node(s) became Ready within " ++
      o.readyTimeout ++ ": " ++ o.expired)
  | polls + 1 => do
    match ← send R o.shell.text .getNodes with
    | .error e =>
      say R ("waiting for nodes to be Ready: " ++ e)
      waitReady c polls
    | .ok res =>
      if res.exitStatus = 0 ∧ c.readyNodes ≤ countReady res.stdout then
        say R (toString c.readyNodes ++ " node(s) Ready")
        return
      say R ("waiting for nodes to be Ready (" ++ toString (countReady res.stdout) ++ "/" ++
        toString c.readyNodes ++ ")")
      waitReady c polls

def auditLogPresent : ℕ → Narration R Command Bool
  | 0 => return false
  | attempts + 1 => do
    match ← send R o.shell.text .testAuditLog with
    | .error e => throw ("k3s: check audit log: " ++ e)
    | .ok res => if res.exitStatus = 0 then return true else auditLogPresent attempts

def verify : Narration R Command String := do
  match ← send R o.shell.text .encryptStatus with
  | .error e => throw ("k3s: check secrets encryption: " ++ e)
  | .ok res =>
    let status := encryptionStatus res.stdout
    if res.exitStatus ≠ 0 then
      throw ("k3s: secrets-encrypt status exited " ++ toString res.exitStatus ++ ": " ++
        firstLine res.stderr)
    else if status.toList.map Char.toLower ≠ "enabled".toList then
      throw ("k3s: secrets encryption is not enabled (status: " ++ quoted status ++ ")")
    else if ← auditLogPresent R o 3 then return status
    else throw ("k3s: audit log " ++ pathAuditLog ++ " not found; auditing may not be active")

def fetchKubeconfig (c : Config) : Narration R Command String := do
  match ← send R o.shell.text (.cat pathKubeconfig) with
  | .error e => throw ("k3s: read kubeconfig: " ++ e)
  | .ok res =>
    let remote := ("https://" ++ c.nodeAddress ++ ":6443").toList
    let kubeconfig := replaceAll localServer.toList remote 0 res.stdout.toList
    if res.exitStatus ≠ 0 then
      throw ("k3s: read kubeconfig exited " ++ toString res.exitStatus ++ ": " ++
        firstLine res.stderr)
    else if (following remote kubeconfig).isSome then return String.ofList kubeconfig
    else throw ("k3s: kubeconfig did not contain the expected server URL " ++
      quoted localServer ++ " to rewrite")

def fetchToken (c : Config) : Narration R Command String := do
  if c.serverURL ≠ "" then return ""
  else match ← send R o.shell.text (.cat pathToken) with
    | .error e => throw ("k3s: read cluster token: " ++ e)
    | .ok res =>
      let token := trimSpace res.stdout
      if res.exitStatus ≠ 0 then
        throw ("k3s: read cluster token exited " ++ toString res.exitStatus ++ ": " ++
          firstLine res.stderr)
      else if tokenRe token then return token
      else throw "k3s: cluster token file had unexpected contents"

/-- `Bootstrap`. -/
def bootstrap (t : Templates) (c : Config) : Narration R Command K3s.Result :=
  match validate c with
  | some message => throw message
  | none => do
    let installed ← detectInstalled R o
    let prepared ← applyHostPrereqs R o t installed
    let converged ← installOrConverge R o t c installed
    waitReady R o c o.polls
    let status ← verify R o
    let kubeconfig ← fetchKubeconfig R o c
    let token ← fetchToken R o c
    return ⟨installed.isSome, prepared || converged, c.version, status, true, kubeconfig, token⟩

end Bootstrap

section Erasure

variable {R : Runner} {o : Options} {α β : Type}

/-- What is left of an answer: the exit status and the output, if there is any. -/
def reply (R : Runner) (o : Options) (c : Command) (x : R.Outcome) : Option Node.Output :=
  match R.report (o.shell.text c) x with
  | .error _ => none
  | .ok res => some ⟨res.exitStatus, res.stdout⟩

/-- Both stop with an error, or end with the same result. -/
def SameEnd : Except String α → Except Node.Failure α → Prop
  | .error _, .error _ => True
  | .ok a, .ok b => a = b
  | _, _ => False

/-- The action is the narration without its texts. -/
def ErasesTo (o : Options) (p : Narration R Command α) (q : Node.Action α) : Prop :=
  Erases Command.node (reply R o) SameEnd p.run q.run

theorem erases_pure (a : α) : ErasesTo (R := R) o (pure a) (pure a) := Erases.done rfl

theorem erases_throw (message : String) (e : Node.Failure) :
    ErasesTo (R := R) o (throw message : Narration R Command α) (throw e) :=
  Erases.done trivial

variable {q : Node.Action α}

theorem ErasesTo.bind {p : Narration R Command α} {f : α → Narration R Command β}
    {g : α → Node.Action β} (h : ErasesTo o p q) (hfg : ∀ a, ErasesTo o (f a) (g a)) :
    ErasesTo o (p >>= f) (q >>= g) := by
  apply Erases.bind h
  intro r r' hr
  match r, r', hr with
  | .error _, .error _, _ => exact Erases.done trivial
  | .ok a, .ok _, rfl => exact hfg a

theorem erases_say {line : String} {f : Unit → Narration R Command α} (h : ErasesTo o (f ()) q) :
    ErasesTo o (say R line >>= f) q :=
  Erases.say h

theorem erases_send {c : Command} {f : Except String Transport.Result → Narration R Command α}
    {g : Option Node.Output → Node.Action α} (he : ∀ e, ErasesTo o (f (.error e)) (g none))
    (hok : ∀ res, ErasesTo o (f (.ok res)) (g (some ⟨res.exitStatus, res.stdout⟩))) :
    ErasesTo o (send R o.shell.text c >>= f) (Node.run c.node >>= g) := by
  apply Erases.run
  intro x
  show ErasesTo o (f (R.report (o.shell.text c) x)) (g (reply R o c x))
  unfold reply
  cases R.report (o.shell.text c) x with
  | error e => exact he e
  | ok res => exact hok res

theorem erases_runOK (c : Command) (desc : String) :
    ErasesTo o (runOK R o.shell c desc) (Node.runOK "k3s" c.node desc) := by
  apply erases_send
  · intro e
    exact erases_throw ..
  intro res
  dsimp only
  split
  · exact erases_throw ..
  · exact erases_pure ()

theorem erases_ensureFile (path content mode : String) :
    ErasesTo o (ensureFile R o path content mode) (Node.ensureFile "k3s" path content mode) := by
  apply erases_send (c := .cat path)
  · intro e
    exact erases_throw ..
  intro cur
  dsimp only
  split
  · exact erases_pure false
  apply (erases_runOK (.write path content mode) _).bind
  intro _
  exact erases_say (erases_pure true)

theorem erases_detectInstalled : ErasesTo o (detectInstalled R o) K3s.detectInstalled := by
  apply erases_send (c := .k3sVersion)
  · intro e
    exact erases_throw ..
  · intro res
    exact erases_pure _

/-- The prerequisites as narrated are those of the plain bootstrap. -/
theorem erases_applyHostPrereqs (t : Templates) (installed : Option String) :
    ErasesTo o (applyHostPrereqs R o t installed) (K3s.applyHostPrereqs t installed) := by
  apply (erases_ensureFile ..).bind
  intro changed
  dsimp only
  split
  on_goal 1 =>
    apply (erases_runOK (.sysctl pathSysctl) _).bind
    intro _
  all_goals
    apply (erases_runOK (.mkdir pathAuditLogDir) _).bind
    intro _
    apply (erases_ensureFile ..).bind
    intro audit
    apply (erases_ensureFile ..).bind
    intro psa
    exact erases_pure _

/-- So is the install. -/
theorem erases_installOrConverge (t : Templates) (c : Config) (installed : Option String) :
    ErasesTo o (installOrConverge R o t c installed) (K3s.installOrConverge t c installed) := by
  apply (erases_ensureFile ..).bind
  intro configChanged
  unfold converge
  dsimp only
  split
  · cases installed with
    | none | some =>
      apply erases_say
      apply (erases_runOK (.installK3s c.version) _).bind
      intro _
      exact erases_pure true
  · split
    · apply erases_say
      apply (erases_runOK .restart _).bind
      intro _
      exact erases_pure true
    apply erases_send (c := .isActive)
    · intro e
      exact erases_throw ..
    intro res
    dsimp only
    split
    · apply erases_say
      apply (erases_runOK .start _).bind
      intro _
      exact erases_pure true
    · exact erases_pure false

theorem erases_waitReady (c : Config) (polls : ℕ) :
    ErasesTo o (waitReady R o c polls) (K3s.waitReady c polls) := by
  induction polls with
  | zero => exact erases_throw ..
  | succ polls ih =>
    apply erases_send (c := .getNodes)
    · intro e
      exact erases_say ih
    intro res
    dsimp only
    split
    · exact erases_say (erases_pure ())
    · exact erases_say ih

theorem erases_auditLogPresent (attempts : ℕ) :
    ErasesTo o (auditLogPresent R o attempts) (K3s.auditLogPresent attempts) := by
  induction attempts with
  | zero => exact erases_pure false
  | succ attempts ih =>
    apply erases_send (c := .testAuditLog)
    · intro e
      exact erases_throw ..
    intro res
    dsimp only
    split
    · exact erases_pure true
    · exact ih

theorem erases_verify : ErasesTo o (verify R o) K3s.verify := by
  apply erases_send (c := .encryptStatus)
  · intro e
    exact erases_throw ..
  intro res
  dsimp only
  split
  · exact erases_throw ..
  split
  · exact erases_throw ..
  apply (erases_auditLogPresent 3).bind
  intro found
  cases found with
  | true => exact erases_pure _
  | false => exact erases_throw ..

theorem erases_fetchKubeconfig (c : Config) :
    ErasesTo o (fetchKubeconfig R o c) (K3s.fetchKubeconfig c) := by
  apply erases_send (c := .cat pathKubeconfig)
  · intro e
    exact erases_throw ..
  intro res
  dsimp only
  split
  · exact erases_throw ..
  split
  · exact erases_pure _
  · exact erases_throw ..

theorem erases_fetchToken (c : Config) : ErasesTo o (fetchToken R o c) (K3s.fetchToken c) := by
  unfold fetchToken K3s.fetchToken
  split
  · exact erases_pure ""
  apply erases_send (c := .cat pathToken)
  · intro e
    exact erases_throw ..
  intro res
  dsimp only
  split
  · exact erases_throw ..
  split
  · exact erases_pure _
  · exact erases_throw ..

/-- The narrated bootstrap refines the plain one. -/
theorem erases_bootstrap (t : Templates) (c : Config) :
    ErasesTo o (bootstrap R o t c) (K3s.bootstrap t c o.polls) := by
  unfold bootstrap K3s.bootstrap
  cases validate c with
  | some message => exact erases_throw ..
  | none =>
    apply erases_detectInstalled.bind
    intro installed
    apply (erases_applyHostPrereqs t installed).bind
    intro prepared
    apply (erases_installOrConverge t c installed).bind
    intro converged
    apply (erases_waitReady c o.polls).bind
    intro _
    apply erases_verify.bind
    intro status
    apply (erases_fetchKubeconfig c).bind
    intro kubeconfig
    apply (erases_fetchToken c).bind
    intro token
    exact erases_pure _

/-- With any runner, the bootstrap with its texts is the plain one, and its runs are runs of that. -/
theorem bootstrap_refines (P : Node.Tools) (t : Templates) (c : Config) :
    ErasesTo o (bootstrap R o t c) (K3s.bootstrap t c o.polls) ∧
    ∀ n r n', Runs (refinedExec Command.node (reply R o) (Node.machine P).exec) (bootstrap R o t c).run
        n r n' →
      ∃ r', SameEnd r r' ∧ Runs (Node.machine P).exec (K3s.bootstrap t c o.polls).run n r' n' := by
  refine ⟨erases_bootstrap t c, ?_⟩
  intro n r n' h
  exact (erases_bootstrap t c).runs h

end Erasure

end Orkano.K3s.Progress
