import Mathlib.Data.Int.Notation
import Mathlib.Data.Nat.Notation
import Orkano.Interleave.Program

/-!
The doctor's probe of network isolation: batches of three canary pods, repeated while they leak
until the policies had time to settle.
-/
namespace Orkano.Doctor

open Interleave Program

inductive Status where
  | pass
  | fail
  | skip
deriving DecidableEq, Repr

structure Result where
  status : Status
  message : String
deriving DecidableEq, Repr

inductive LegOutcome where
  | indeterminate
  | connected
  | blocked
deriving DecidableEq, Repr

def LegOutcome.text : LegOutcome → String
  | connected => "connected"
  | blocked => "blocked"
  | indeterminate => "indeterminate"

inductive PodPhase where
  | pending
  | running
  | succeeded
  | failed
  | unknown
deriving DecidableEq, Repr

def PodPhase.text : PodPhase → String
  | pending => "Pending"
  | running => "Running"
  | succeeded => "Succeeded"
  | failed => "Failed"
  | unknown => "Unknown"

structure Terminated where
  exitCode : ℤ
  reason : String
deriving DecidableEq, Repr

/-- `waiting` is the reason of a waiting container. -/
structure ContainerStatus where
  name : String
  waiting : Option String
  terminated : Option Terminated
deriving DecidableEq, Repr

structure PodStatus where
  phase : PodPhase
  reason : String
  containers : List ContainerStatus
deriving DecidableEq, Repr

def PodStatus.isTerminal (pod : PodStatus) : Bool := pod.phase = .succeeded || pod.phase = .failed

def Terminated.detail (term : Terminated) : String :=
  ", container exited " ++ toString term.exitCode ++
    if term.reason ≠ "" then " (" ++ term.reason ++ ")" else ""

def ContainerStatus.detail (cs : ContainerStatus) : String :=
  match cs.waiting.filter (· ≠ ""), cs.terminated with
  | some reason, _ => ", container " ++ reason
  | none, some term => term.detail
  | none, none => ""

def podDetail (pod : PodStatus) : String :=
  "pod phase " ++ pod.phase.text ++ (if pod.reason ≠ "" then "/" ++ pod.reason else "") ++
    String.join (pod.containers.map ContainerStatus.detail)

def canaryExitConnected : ℤ := 0
def canaryExitBlocked : ℤ := 42
def canaryExitInvalid : ℤ := 43

/-- Only the two codes that the canary's script gives on purpose are evidence. -/
def classifyCanary (pod : PodStatus) : LegOutcome :=
  match pod.containers.findSome? fun cs => if cs.name ≠ "probe" then none else cs.terminated with
  | none => .indeterminate
  | some term =>
    if term.exitCode = canaryExitConnected then .connected
    else if term.exitCode = canaryExitBlocked then .blocked
    else .indeterminate

structure NetpolTiming where
  waitBudget : ℤ
  canarySettle : ℤ
  canaryDeadline : ℤ
  settleBudget : ℤ
  batchReserve : ℤ
  minLeakBatches : ℕ
  maxBatches : ℕ

def second : ℤ := 1000000000

def netpolTiming : NetpolTiming where
  waitBudget := 180 * second
  canarySettle := 5 * second
  canaryDeadline := 60 * second
  settleBudget := 90 * second
  batchReserve := 70 * second
  minLeakBatches := 2
  maxBatches := 6

/-- `d.Round(time.Second) / time.Second`. -/
def roundSeconds (d : ℤ) : ℤ :=
  if 0 ≤ d then (d + second / 2) / second else -((-d + second / 2) / second)

structure NetpolProbe where
  timing : NetpolTiming
  showDuration : ℤ → String

def systemNamespace : String := "orkano-system"
def registryServiceName : String := "orkano-registry"
def buildNamespace : String := "orkano-builds"
def buildPodLabel : String := "orkano-build"
def canaryLabelValue : String := "orkano-doctor-canary"
def probeTargetEnv : String := "ORKANO_PROBE_TARGET"

def CanaryImage : String :=
  "busybox:1.37@sha256:9532d8c39891ca2ecde4d30d7710e01fb739c87a8b9299685c63704296b16028"

def policyControllerNote : String :=
  " (on k3s the policy controller runs inside the server process, not as a pod: check `journalctl -u k3s` and whether the node was started with --disable-network-policy)"

inductive Role where
  | control
  | denyRegistry
  | denyEgress
deriving DecidableEq, Repr

def Role.text : Role → String
  | control => "control"
  | denyRegistry => "deny-registry"
  | denyEgress => "deny-egress"

structure CanaryPod where
  role : Role
  name : String
  appLabel : String
  target : String
  activeDeadlineSeconds : ℤ
  command : String
deriving DecidableEq, Repr

def canaryCommand (settle : ℤ) : String :=
  "sleep " ++ toString (max 0 (roundSeconds settle)) ++ "; nc -z -w 5 \"$" ++ probeTargetEnv ++
    "\" 443; case $? in 0) exit " ++ toString canaryExitConnected ++ ";; 1) exit " ++
    toString canaryExitBlocked ++ ";; *) exit " ++ toString canaryExitInvalid ++ ";; esac"

def canaryPod (timing : NetpolTiming) (role : Role) (name appLabel vip : String) : CanaryPod where
  role := role
  name := name
  appLabel := appLabel
  target := vip
  activeDeadlineSeconds := roundSeconds timing.canaryDeadline
  command := canaryCommand timing.canarySettle

structure BatchResult where
  control : LegOutcome
  denyRegistry : LegOutcome
  denyEgress : LegOutcome
  controlDetail : String
deriving DecidableEq, Repr

def BatchResult.leaked (b : BatchResult) : Bool :=
  b.denyRegistry = .connected || b.denyEgress = .connected

inductive SweepReply where
  | deleted
  | notFound
  | error (text : String)
deriving DecidableEq, Repr

inductive Call where
  | getService (ns name : String)
  | listPolicies (ns : String)
  | sweepCanaries
  /-- `opt.now`, in seconds. -/
  | stamp
  /-- `time.Now`. -/
  | clock
  | createPod (pod : CanaryPod)
  /-- How many poll intervals pass before the context ends, and the error it ends with. -/
  | patience
  | getPod (role : Role) (name : String)
  | deletePod (name : String)
  /-- Whether the context has ended. -/
  | ended

@[reducible] def Call.Reply : Call → Type
  | getService _ _ => Except String String
  | listPolicies _ => Option ℕ
  | sweepCanaries => SweepReply
  | stamp | clock => ℤ
  | createPod _ => Option String
  | patience => ℕ × String
  | getPod _ _ => Except String PodStatus
  | deletePod _ => Unit
  | ended => Bool

@[reducible] def cluster : Interface := ⟨Call, Call.Reply⟩

abbrev Prog := Program cluster

def call (c : Call) : Prog c.Reply := @perform cluster c

section Programs

variable (p : NetpolProbe)

def serviceVIP (ns name : String) : Prog (Except String String) := do
  match ← call (.getService ns name) with
  | .error e => return .error ("read Service " ++ ns ++ "/" ++ name ++ " (a probe target): " ++ e)
  | .ok vip =>
    if vip = "" ∨ vip = "None" then
      return .error ("service " ++ ns ++ "/" ++ name ++ " has no ClusterIP to probe")
    else return .ok vip

/-- Whether there is any policy, and whether the answer is known. -/
def networkPoliciesPresent : Prog (Bool × Bool) := do
  match ← call (.listPolicies buildNamespace) with
  | none => return (false, false)
  | some n => return (decide (0 < n), true)

def sweepCanaries : Prog (Option String) := do
  match ← call .sweepCanaries with
  | .error e => return some ("sweep leftover canary pods: " ++ e)
  | _ => return none

/-- One poll: what a finished canary saw, or the state to report. -/
def readCanary (role : Role) (name : String) : Prog (Except String (LegOutcome × String)) := do
  match ← call (.getPod role name) with
  | .error e => return .error ("read failed: " ++ e)
  | .ok pod =>
    if pod.isTerminal then return .ok (classifyCanary pod, podDetail pod)
    else return .error ("phase \"" ++ pod.phase.text ++ "\"")

def pollCanary (role : Role) (name ctxErr : String) :
    ℕ → Prog (LegOutcome × String × Option String)
  | 0 => do
    match ← readCanary role name with
    | .ok (outcome, detail) => return (outcome, detail, none)
    | .error lastState =>
      return (.indeterminate, lastState, some ("canary did not finish in time (last state: " ++
        lastState ++ "): " ++ ctxErr))
  | left + 1 => do
    match ← readCanary role name with
    | .ok (outcome, detail) => return (outcome, detail, none)
    | .error _ => pollCanary role name ctxErr left

def waitCanaryOutcome (role : Role) (name : String) :
    Prog (LegOutcome × String × Option String) := do
  let (polls, ctxErr) ← call .patience
  pollCanary role name ctxErr polls

def cleanup : List CanaryPod → Prog Unit
  | [] => return ()
  | pod :: rest => do
    call (.deletePod pod.name)
    cleanup rest

def createPods : List CanaryPod → Prog (Option String)
  | [] => return none
  | pod :: rest => do
    match ← call (.createPod pod) with
    | some e => return some ("create canary pod " ++ pod.name ++ ": " ++ e)
    | none => createPods rest

def BatchResult.record (b : BatchResult) (role : Role) (outcome : LegOutcome) (detail : String) :
    BatchResult :=
  match role with
  | .control => { b with control := outcome, controlDetail := detail }
  | .denyRegistry => { b with denyRegistry := outcome }
  | .denyEgress => { b with denyEgress := outcome }

def waitPods (b : BatchResult) : List CanaryPod → Prog (Except String BatchResult)
  | [] => return .ok b
  | pod :: rest => do
    match ← waitCanaryOutcome pod.role pod.name with
    | (_, detail, some e) =>
      return .error ("wait for canary " ++ pod.name ++ " (" ++ detail ++ "): " ++ e)
    | (outcome, detail, none) => waitPods (b.record pod.role outcome detail) rest

/-- The name carries the stamp of the run and the batch. -/
def canaryName (stamp : ℤ) (attempt : ℕ) (role : Role) : String :=
  "orkano-doctor-netpol-" ++ role.text ++ "-" ++ toString stamp ++ "-a" ++ toString attempt

def batchPods (stamp : ℤ) (attempt : ℕ) (registryVIP apiVIP : String) : List CanaryPod :=
  let name := canaryName stamp attempt
  [canaryPod p.timing .control (name .control) buildPodLabel registryVIP,
    canaryPod p.timing .denyRegistry (name .denyRegistry) canaryLabelValue registryVIP,
    canaryPod p.timing .denyEgress (name .denyEgress) canaryLabelValue apiVIP]

/-- Three fresh canaries; they are deleted in every case. -/
def runCanaryBatch (attempt : ℕ) (registryVIP apiVIP : String) :
    Prog (Except String BatchResult) := do
  let stamp ← call .stamp
  let pods := batchPods p stamp attempt registryVIP apiVIP
  match ← createPods pods with
  | some e =>
    cleanup pods
    return .error e
  | none =>
    let out ← waitPods ⟨.indeterminate, .indeterminate, .indeterminate, ""⟩ pods
    cleanup pods
    return out

def netpolFailResult (b : BatchResult) (registryVIP apiVIP suffix : String) : Result :=
  let msg :=
    if b.denyEgress = .connected then
      "an unlabeled pod in " ++ buildNamespace ++ " connected to the apiserver ClusterIP " ++ apiVIP ++
        ":443: the default-deny egress policy is not being enforced (policy missing or the CNI ignores it)"
    else
      "an unlabeled pod in " ++ buildNamespace ++ " connected to the registry " ++ registryVIP ++
        ":443 even though its apiserver egress was blocked: policy evaluation is partial (the registry ingress allowlist or the egress rule set is broken)"
  ⟨.fail, msg ++ suffix ++ policyControllerNote⟩

def passResult (registryVIP apiVIP : String) : Result where
  status := .pass
  message := "both unlabeled canaries were blocked (registry " ++ registryVIP ++
    ":443 and apiserver " ++ apiVIP ++ ":443) while the build-labeled control connected: the CNI enforces NetworkPolicy in both directions"

def controlError (registryVIP : String) (b : BatchResult) : String :=
  "the allowed control path (build-labeled pod -> registry " ++ registryVIP ++
    ":443) did not connect (" ++ b.controlDetail ++ "): cannot attribute the deny results to policy; check the registry's health, and whether the canary image " ++
    CanaryImage ++ " is pullable on the nodes (air-gapped or rate-limited installs need it preloaded)"

/-- What one batch alone decides; `none` asks for another one. -/
def judge (absent : Bool) (registryVIP apiVIP : String) (b : BatchResult) :
    Option (Except String Result) :=
  if b.control ≠ .connected then some (.error (controlError registryVIP b))
  else if b.denyEgress = .blocked ∧ b.denyRegistry = .blocked then
    some (.ok (passResult registryVIP apiVIP))
  else if b.leaked ∧ absent then
    some (.ok (netpolFailResult b registryVIP apiVIP ("; no NetworkPolicy exists in " ++
      buildNamespace ++ ", so nothing is being enforced; re-apply config/netpol/")))
  else none

def conclude (registryVIP apiVIP : String) (leaks : ℕ) (last : BatchResult) :
    Except String Result :=
  if p.timing.minLeakBatches ≤ leaks ∧ last.leaked then
    .ok (netpolFailResult last registryVIP apiVIP (", reproduced across " ++ toString leaks ++
      " independent canary batches over " ++ p.showDuration p.timing.settleBudget))
  else .error ("could not reach a confident verdict within " ++ p.showDuration p.timing.waitBudget ++
    ": last batch saw the registry leg " ++ last.denyRegistry.text ++ " and the apiserver leg " ++
    last.denyEgress.text ++ " (control connected); if the cluster booted moments ago the policy controller may still be programming the pod firewall; re-run `orkano doctor`" ++
    policyControllerNote)

/-- The settle window opens with the first batch that did not pass. -/
def settleFrom : Option ℤ → Prog ℤ
  | some deadline => return deadline
  | none => return (← call .clock) + p.timing.settleBudget

def roomToRetry (permitted : Bool) (settleDeadline ceiling : ℤ) : Prog Bool := do
  let now ← call .clock
  if permitted ∧ now < settleDeadline ∧ now + p.timing.batchReserve < ceiling then
    return !(← call .ended)
  else return false

/-- The body of the loop up to the question of another batch: a verdict, or the batch and
the end of the settle window. -/
def probeBatch (absent : Bool) (registryVIP apiVIP : String) (attempt : ℕ)
    (settleDeadline : Option ℤ) : Prog (Except String Result ⊕ BatchResult × ℤ) := do
  match ← runCanaryBatch p attempt registryVIP apiVIP with
  | .error e => return .inl (.error e)
  | .ok b =>
    match judge absent registryVIP apiVIP b with
    | some verdict => return .inl verdict
    | none => return .inr (b, ← settleFrom p settleDeadline)

/-- The loop over the batches. `left` is how many more of them `MaxBatches` permits after
this one, so that `attempt < MaxBatches` says that it is not zero. -/
def probeLoop (absent : Bool) (registryVIP apiVIP : String) (ceiling : ℤ) :
    (left attempt : ℕ) → Option ℤ → (leaks : ℕ) → Prog (Except String Result)
  | 0, attempt, settleDeadline, leaks => do
    match ← probeBatch p absent registryVIP apiVIP attempt settleDeadline with
    | .inl verdict => return verdict
    | .inr (b, settleDeadline) =>
      let _ ← roomToRetry p false settleDeadline ceiling
      return conclude p registryVIP apiVIP (leaks + b.leaked.toNat) b
  | left + 1, attempt, settleDeadline, leaks => do
    match ← probeBatch p absent registryVIP apiVIP attempt settleDeadline with
    | .inl verdict => return verdict
    | .inr (b, settleDeadline) =>
      if ← roomToRetry p true settleDeadline ceiling then
        probeLoop absent registryVIP apiVIP ceiling left (attempt + 1) (some settleDeadline)
          (leaks + b.leaked.toNat)
      else return conclude p registryVIP apiVIP (leaks + b.leaked.toNat) b

def probeNetworkPolicy : Prog (Except String Result) := do
  match ← serviceVIP systemNamespace registryServiceName with
  | .error e => return .error e
  | .ok registryVIP =>
    match ← serviceVIP "default" "kubernetes" with
    | .error e => return .error e
    | .ok apiVIP =>
      let (policiesPresent, policiesKnown) ← networkPoliciesPresent
      match ← sweepCanaries with
      | some e => return .error e
      | none =>
        let start ← call .clock
        probeLoop p (policiesKnown && !policiesPresent) registryVIP apiVIP
          (start + p.timing.waitBudget) (p.timing.maxBatches - 1) 1 none 0

end Programs

end Orkano.Doctor
