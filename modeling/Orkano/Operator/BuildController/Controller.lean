import Mathlib.Data.List.DropRight
import Orkano.Interleave.RelyGuarantee
import Orkano.Operator.Api

/-!
The Build controller: one reconcile as a program over its reads and writes. Annotations, not
owner references, say whose a Job is. What the composed build looks like is left open.
-/
namespace Orkano.Operator.BuildController

open Interleave Program

structure Key where
  ns : String
  name : String
deriving DecidableEq, Repr

structure JobReference where
  ns : String
  name : String
deriving DecidableEq, Repr

inductive Reason where
  | pending
  | running
  | succeeded
  | buildFailed
  | oomKilled
  | deadlineExceeded
  | jobConflict
  | jobMissing
  | resolvingDigest
  | featureDisabled
  | invalidBuild
deriving DecidableEq, Repr

structure Condition where
  status : Bool
  reason : Reason
  message : String
deriving DecidableEq, Repr

structure BuildStatus where
  observedGeneration : ℕ
  phase : BuildPhase
  image : String
  jobRef : Option JobReference
  startedAt : Option ℤ
  completedAt : Option ℤ
  completed : Option Condition
deriving DecidableEq, Repr

def BuildStatus.empty : BuildStatus := ⟨0, .none, "", none, none, none, none⟩

/-- `finalizer` says whether the controller's own finalizer is set. -/
structure BuildObject where
  key : Key
  uid : ℕ
  resourceVersion : ℕ
  generation : ℕ
  deleting : Bool
  finalizer : Bool
  spec : BuildSpec
  timeoutSeconds : ℤ
  status : BuildStatus
deriving DecidableEq, Repr

structure JobCondition where
  reason : String
  message : String
  lastTransitionTime : ℤ
deriving DecidableEq, Repr

structure JobStatus where
  startTime : Option ℤ
  completionTime : Option ℤ
  active : ℤ
  failed : Option JobCondition
  complete : Bool
deriving DecidableEq, Repr

def JobStatus.empty : JobStatus := ⟨none, none, 0, none, false⟩

/-- `annotations` is the Build that the annotations name; one that is missing next to the
other reads as the empty text. -/
structure Job where
  uid : ℕ
  annotations : Option Key
  status : JobStatus
deriving DecidableEq, Repr

structure Termination where
  reason : String
  exitCode : ℤ
deriving DecidableEq, Repr

structure ContainerStatus where
  terminated : Option Termination
  lastTerminated : Option Termination
deriving DecidableEq, Repr

structure Pod where
  initContainerStatuses : List ContainerStatus
  containerStatuses : List ContainerStatus
deriving DecidableEq, Repr

structure Reconciler where
  features : List Feature
  compose : Key → BuildSpec → Except String String
  render : Key → BuildSpec → Option String

def jobsNamespace : String := "orkano-builds"

def defaultTimeoutSeconds : ℤ := 900

/-- `hash` stands for the first eight hex digits of a SHA-256 sum. -/
def jobName (hash : String → String) (buildName : String) : String :=
  if buildName.length ≤ 63 then buildName
  else String.ofList ((buildName.toList.take 54).rdropWhile fun c => c = '-' || c = '.') ++ "-" ++
    hash buildName

def ownsJob (b : BuildObject) (job : Job) : Bool := job.annotations = some b.key

def BuildStatus.isTerminal (s : BuildStatus) : Bool := s.phase = .succeeded || s.phase = .failed

def BuildStatus.reason (s : BuildStatus) : Option Reason := s.completed.map Condition.reason

def setCompleted (b : BuildObject) (status : Bool) (reason : Reason) (message : String) :
    BuildObject :=
  { b with status := { b.status with completed := some ⟨status, reason, message⟩ } }

def failBuild (b : BuildObject) (reason : Reason) (message : String) : BuildObject :=
  setCompleted { b with status := { b.status with phase := .failed } } false reason message

def setJobRef (hash : String → String) (b : BuildObject) : BuildObject :=
  { b with status := { b.status with jobRef := some ⟨jobsNamespace, jobName hash b.key.name⟩ } }

def effectiveTimeout (b : BuildObject) : ℤ :=
  if 0 < b.timeoutSeconds then b.timeoutSeconds else defaultTimeoutSeconds

def BuildObject.app (b : BuildObject) : App :=
  ⟨b.key.ns, b.spec.appName, b.spec.source, b.spec.strategy⟩

def Feature.id : Feature → String
  | .sourceGit => "source.git"
  | .sourceZip => "source.zip"
  | .buildNixpacks => "build.nixpacks"

def disabledMessage (missing : List Feature) : String :=
  "features: required unsafe feature is disabled: " ++ String.intercalate "," (missing.map Feature.id)

inductive CachedRead where
  | lookup
  | cleanup
deriving DecidableEq, Repr

inductive LiveRead where
  | adopt
  | confirm
  | conflict
deriving DecidableEq, Repr

inductive GetReply (α : Type) where
  | found (a : α)
  | notFound
  | error

inductive CreateReply where
  | created (job : Job)
  | alreadyExists
  | error

/-- Requests about a Job name the Build whose Job it is. The feature Set of a create is
that of the reconcile that asks for it; the API server does not see it. -/
inductive Call where
  | getBuild (key : Key)
  | updateBuild (b : BuildObject)
  | updateStatus (b : BuildObject)
  | getJob (why : CachedRead) (key : Key)
  | readJob (why : LiveRead) (key : Key)
  | createJob (features : List Feature) (b : BuildObject)
  | deleteJob (key : Key)
  | listPods (key : Key)
  | resolveDigest (ref : String)

@[reducible] def Call.Reply : Call → Type
  | getBuild _ => GetReply BuildObject
  | updateBuild _ => Option BuildObject
  | updateStatus _ => Bool
  | getJob _ _ | readJob _ _ => GetReply Job
  | createJob _ _ => CreateReply
  | deleteJob _ => Bool
  | listPods _ => Option (List Pod)
  | resolveDigest _ => Except String String

@[reducible] def apiServer : Interface := ⟨Call, Call.Reply⟩

abbrev Prog := Program apiServer

def call (c : Call) : Prog c.Reply := @perform apiServer c

inductive ReconcileError where
  | fetchBuild
  | checkStarted
  | addFinalizer
  | compose (message : String)
  | render (message : String)
  | fetchJob
  | confirmJob
  | vanished
  | foreignJob
  | fetchExisting
  | createJob
  | listPods
  | resolveDigest
  | updateStatus
  | cleanupFetch
  | cleanupDelete
  | removeFinalizer
deriving DecidableEq, Repr

/-- The errors that a reconcile joins; none of them is success. -/
abbrev Errors := List ReconcileError

section Programs

variable (hash : String → String)

def updateStatus (b : BuildObject) (before : BuildStatus) : Prog Errors :=
  let b := { b with status := { b.status with observedGeneration := b.generation } }
  if b.status = before then return []
  else do if ← call (.updateStatus b) then return [] else return [.updateStatus]

/-- `none` inside means that no Job was started for the Build. -/
def adoptStartedJob (b : BuildObject) : Prog (Option (Option BuildObject)) := do
  match ← call (.readJob .adopt b.key) with
  | .notFound => return some none
  | .error => return none
  | .found job => if ownsJob b job then return some (some (setJobRef hash b)) else return some none

def refuseForeignJob (b : BuildObject) : BuildObject × Except ReconcileError Job :=
  (failBuild b .jobConflict ("Job " ++ jobsNamespace ++ "/" ++ jobName hash b.key.name ++
    " already exists and does not belong to this Build; remove it and retry with a new Build"),
    .error .foreignJob)

def confirmJob (b : BuildObject) : Prog (BuildObject × Except ReconcileError Job) := do
  match ← call (.readJob .confirm b.key) with
  | .found job => return (b, .ok job)
  | .error => return (b, .error .confirmJob)
  | .notFound =>
    return (failBuild b .jobMissing ("Job " ++ jobsNamespace ++ "/" ++ jobName hash b.key.name ++
      " was deleted before the build finished; retry by creating a new Build"), .error .vanished)

def startJob (r : Reconciler) (b : BuildObject) : Prog (BuildObject × Except ReconcileError Job) := do
  match ← call (.createJob r.features b) with
  | .created job => return (setJobRef hash b, .ok job)
  | .error => return (b, .error .createJob)
  | .alreadyExists =>
    match ← call (.readJob .conflict b.key) with
    | .found job =>
      if ownsJob b job then return (setJobRef hash b, .ok job) else return refuseForeignJob hash b
    | _ => return (b, .error .fetchExisting)

def lookupJob (r : Reconciler) (b : BuildObject) : Prog (BuildObject × Except ReconcileError Job) := do
  match ← call (.getJob .lookup b.key) with
  | .error => return (b, .error .fetchJob)
  | .found job =>
    if ownsJob b job then return (setJobRef hash b, .ok job) else return refuseForeignJob hash b
  | .notFound => if b.status.jobRef.isSome then confirmJob hash b else startJob hash r b

def ensureJob (r : Reconciler) (b : BuildObject) : Prog (BuildObject × Except ReconcileError Job) :=
  match r.compose b.key b.spec with
  | .error message => return (failBuild b .invalidBuild message, .error (.compose message))
  | .ok _ =>
    match r.render b.key b.spec with
    | some message => return (b, .error (.render message))
    | none => lookupJob hash r b

def ContainerStatus.termination (cs : ContainerStatus) : Option Termination :=
  cs.terminated.or cs.lastTerminated

def Termination.verdict (jobName : String) (term : Termination) : Option (Reason × String) :=
  if term.reason = "OOMKilled" then
    some (.oomKilled, "build was OOM-killed; it needs more than the 4Gi memory limit or a smaller build")
  else if term.exitCode ≠ 0 then
    some (.buildFailed, "build exited with code " ++ toString term.exitCode ++
      "; see the Job pod logs (" ++ jobsNamespace ++ "/" ++ jobName ++ ")")
  else none

def podsVerdict (jobName : String) (pods : List Pod) : Option (Reason × String) :=
  ((pods.flatMap fun p => p.initContainerStatuses ++ p.containerStatuses).filterMap
    ContainerStatus.termination).findSome? (Termination.verdict jobName)

def failureReason (b : BuildObject) (cond : JobCondition) : Prog (Option (Reason × String)) :=
  if cond.reason = "DeadlineExceeded" then
    return some (.deadlineExceeded,
      "build exceeded its " ++ toString (effectiveTimeout b) ++ "s timeout")
  else do
    match ← call (.listPods b.key) with
    | none => return none
    | some pods =>
      return some ((podsVerdict (jobName hash b.key.name) pods).getD (.buildFailed,
        if cond.message = "" then "build Job failed; see the Job pod logs" else cond.message))

def observeFailed (b : BuildObject) (cond : JobCondition) : Prog (BuildObject × Errors) := do
  let b := { b with status := { b.status with completedAt := some cond.lastTransitionTime } }
  match ← failureReason hash b cond with
  | none => return (b, [.listPods])
  | some (reason, message) => return (failBuild b reason message, [])

/-- A build that is pushed but cannot be pinned stays running. -/
def observeComplete (r : Reconciler) (b : BuildObject) (job : Job) : Prog (BuildObject × Errors) :=
  match r.compose b.key b.spec with
  | .error message => return (b, [.compose message])
  | .ok ref => do
    match ← call (.resolveDigest ref) with
    | .error message =>
      return (setCompleted { b with status := { b.status with phase := .running } } false
        .resolvingDigest ("image pushed; resolving its digest failed: " ++ message), [.resolveDigest])
    | .ok pinned =>
      return (setCompleted
        { b with status :=
          { b.status with
            image := pinned
            phase := .succeeded
            completedAt := job.status.completionTime } } true .succeeded ("pushed " ++ pinned), [])

def observeStarted (b : BuildObject) (job : Job) : BuildObject :=
  { b with status := { b.status with startedAt := b.status.startedAt.or job.status.startTime } }

def observeJob (r : Reconciler) (b : BuildObject) (job : Job) : Prog (BuildObject × Errors) :=
  let b := observeStarted b job
  match job.status.failed with
  | some cond => observeFailed hash b cond
  | none =>
    if job.status.complete then observeComplete r b job
    else if 0 < job.status.active then
      return (setCompleted { b with status := { b.status with phase := .running } } false .running
        "build Job is running", [])
    else if b.status.phase = .none ∨ b.status.phase = .pending then
      return (setCompleted { b with status := { b.status with phase := .pending } } false .pending
        "build Job is waiting to start", [])
    else return (b, [])

def runJob (r : Reconciler) (b : BuildObject) (before : BuildStatus) : Prog Errors := do
  match ← ensureJob hash r b with
  | (b, .error e) => return e :: (← updateStatus b before)
  | (b, .ok job) => do
    let (b, errors) ← observeJob hash r b job
    return errors ++ (← updateStatus b before)

/-- A stored finalizer comes before any Job. The update hands back the object as the
server has it, with the stored status in place of what was changed in memory. -/
def holdJob (r : Reconciler) (b : BuildObject) (before : BuildStatus) : Prog Errors :=
  if b.finalizer then runJob hash r b before
  else do
    match ← call (.updateBuild { b with finalizer := true }) with
    | none => return [.addFinalizer]
    | some b => runJob hash r b before

/-- The gates bind only where no Job is tracked. -/
def gateJob (r : Reconciler) (b : BuildObject) : Prog Errors :=
  if b.status.jobRef.isSome then holdJob hash r b b.status
  else
    match validateApp r.features b.app with
    | none => holdJob hash r b b.status
    | some missing => do
      match ← adoptStartedJob hash b with
      | none => return [.checkStarted]
      | some none =>
        updateStatus (failBuild b .featureDisabled (disabledMessage missing)) b.status
      | some (some started) => holdJob hash r started b.status

def dropFinalizer (b : BuildObject) : Prog Errors := do
  match ← call (.updateBuild { b with finalizer := false }) with
  | none => return [.removeFinalizer]
  | some _ => return []

def finalize (b : BuildObject) : Prog Errors :=
  if !b.finalizer then return []
  else do
    match ← call (.getJob .cleanup b.key) with
    | .error => return [.cleanupFetch]
    | .notFound => dropFinalizer b
    | .found job =>
      if ownsJob b job then
        if ← call (.deleteJob b.key) then dropFinalizer b else return [.cleanupDelete]
      else dropFinalizer b

def reconcile (r : Reconciler) (key : Key) : Prog Errors := do
  match ← call (.getBuild key) with
  | .error => return [.fetchBuild]
  | .notFound => return []
  | .found b =>
    if b.deleting then finalize b
    else if b.status.isTerminal then return []
    else gateJob hash r b

end Programs

end Orkano.Operator.BuildController
