import Orkano.Interleave.RelyGuarantee
import Orkano.Operator.Api

/-!
The dispatcher: it claims deliveries from the queue, lists the Apps they concern, resolves each
App's ref and creates a Build for it.
-/
namespace Orkano.Operator

open Interleave

structure TextPrimitives where
  /-- Lowercase hex of SHA-256. -/
  sha256Hex : String → String
  /-- Go's `strings.ToLower`. -/
  toLower : String → String
  /-- Go's `strings.TrimSpace`. -/
  trimSpace : String → String

inductive EventType where
  | push
  | manual
  | other (text : String)
deriving DecidableEq, Repr

structure Delivery where
  id : Int
  deliveryID : String
  repo : String
  eventType : EventType
  appName : String
deriving DecidableEq, Repr

structure Claim where
  tx : Nat
  delivery : Delivery
deriving DecidableEq, Repr

structure Dispatcher where
  text : TextPrimitives
  features : List Feature
  hasGitHub : Bool
  hasGit : Bool
  maxConcurrentBuilds : Nat

section Names

def maxNameLen : Nat := 253
def buildNameSHALen : Nat := 12
def manualHashLen : Nat := 8

/-- `strings.TrimRight` with the cutset of a dash and a dot. -/
def trimRightDashDot (cs : List Char) : List Char :=
  (cs.reverse.dropWhile fun c => c = '-' || c = '.').reverse

variable (T : TextPrimitives)

/-- App name, short commit and suffix; a name that is too long keeps a prefix of the
App name and a hash of it. -/
def buildNameWithSuffix (appName sha suffix : String) : String :=
  let short := String.ofList (sha.toList.take buildNameSHALen)
  let tail := if suffix = "" then short else short ++ "-" ++ suffix
  let name := appName ++ "-" ++ tail
  if name.length ≤ maxNameLen then name
  else
    let hash := String.ofList ((T.sha256Hex appName).toList.take 8)
    let kept := appName.toList.take (maxNameLen - tail.length - hash.length - 2)
    String.ofList (trimRightDashDot kept) ++ "-" ++ hash ++ "-" ++ tail

def buildName (appName sha : String) : String := buildNameWithSuffix T appName sha ""

/-- A push converges by commit; a manual request has a name of its own. -/
def buildNameForDelivery (appName sha : String) (delivery : Delivery) : String :=
  if delivery.eventType ≠ .manual then buildName T appName sha
  else
    let sum := (T.sha256Hex delivery.deliveryID).toList.take manualHashLen
    buildNameWithSuffix T appName sha ("r" ++ String.ofList sum)

def buildFromApp (app : App) (sha name : String) : Build where
  ns := app.ns
  name := name
  createdAt := 0
  spec := ⟨app.name, sha, app.source, app.build⟩
  phase := .none
  image := ""

end Names

/-- `manual-` and 32 lowercase hex digits. -/
def isManualDeliveryID (id : String) : Bool :=
  id.toList.take 7 = "manual-".toList && (id.toList.drop 7).length = 32 &&
    (id.toList.drop 7).all isLowerHex

inductive HandleError where
  | emptySource
  | pushScope
  | manualScope
  | unsupportedEvent
  | listing
  | noApp
  | resolving (app : String)
  | creating (app : String)
  | unresolvable
deriving DecidableEq, Repr

def validateDelivery (delivery : Delivery) : Option HandleError :=
  if delivery.repo = "" then some .emptySource
  else match delivery.eventType with
  | .push =>
    if delivery.deliveryID = "" || delivery.appName ≠ "" then some .pushScope else none
  | .manual =>
    if !isManualDeliveryID delivery.deliveryID || !isSubdomain delivery.appName ||
        delivery.appName.length > 253 then some .manualScope
    else none
  | .other _ => some .unsupportedEvent

inductive Origin where
  | github (repo ref : String)
  | git (url ref : String)
deriving DecidableEq, Repr

inductive ResolveError where
  | unresolvable
  | other
deriving DecidableEq, Repr

inductive CreateReply where
  | created
  | alreadyExists
  | error
deriving DecidableEq, Repr

/-- What the dispatcher asks of its surroundings. The row that Apps are listed for or a
Build is created for, and the App whose ref is asked for, matter to statements only. -/
inductive Call where
  | listBuilds
  | claimNext
  | listApps (row : Int)
  | resolve (app : String) (origin : Origin)
  | createBuild (row : Int) (build : Build)
  | ack (tx : Nat) (id : Int)
  | nack (tx : Nat)

/-- The type of an answer; `none` and `false` stand for an error. -/
@[reducible] def Call.Reply : Call → Type
  | listBuilds => Option (List Build)
  | claimNext => Option (Option Claim)
  | listApps _ => Option (List App)
  | resolve _ _ => Except ResolveError String
  | createBuild _ _ => CreateReply
  | ack _ _ | nack _ => Bool

abbrev operator : Interface := ⟨Call, Call.Reply⟩

abbrev Prog := Program operator

def call (c : Call) : Prog c.Reply := Program.perform (I := operator) c

variable (d : Dispatcher)

/-- The digits of an uploaded archive's digest stand in for a commit. -/
def uploadCommit (digest : String) : String :=
  if digest.toList.take 7 = "sha256:".toList then String.ofList (digest.toList.drop 7) else digest

def resolveCommit (app : App) : Prog (Except ResolveError String) :=
  match app.source.github, app.source.git, app.source.upload with
  | some github, _, _ =>
    if !d.hasGitHub then return .error .other else call (.resolve app.name (.github github.repo github.ref))
  | none, some git, _ =>
    if !d.hasGit then return .error .other else call (.resolve app.name (.git git.url git.ref))
  | none, none, some upload => return .ok (uploadCommit upload.digest)
  | none, none, none => return .error .unresolvable

/-- GitHub repositories are compared without case. -/
def matchesRepo (repo : String) (app : App) : Bool :=
  app.source.github.any fun github =>
    d.text.toLower github.repo = d.text.toLower (d.text.trimSpace repo)

/-- The Apps of a list that a delivery concerns: the one it names, or every one of
its repository. -/
def selectApps (delivery : Delivery) (apps : List App) : List App :=
  if delivery.appName = "" then apps.filter (matchesRepo d delivery.repo)
  else (apps.find? fun app => app.name = delivery.appName).toList

def appsForDelivery (delivery : Delivery) : Prog (Option (List App)) := do
  return (← call (.listApps delivery.id)).map (selectApps d delivery)

/-- A Build that exists already counts as created. -/
def createBuild (app : App) (sha : String) (delivery : Delivery) : Prog Bool := do
  let build := buildFromApp app sha (buildNameForDelivery d.text app.name sha delivery)
  match ← call (.createBuild delivery.id build) with
  | .created | .alreadyExists => return true
  | .error => return false

/-- The loop over the matched Apps, with the number of those skipped so far. -/
def dispatchApps (delivery : Delivery) : List App → Nat → Prog (Except HandleError Nat)
  | [], skipped => return .ok skipped
  | app :: rest, skipped =>
    if (validateApp d.features app).isSome then dispatchApps delivery rest (skipped + 1)
    else do
      match ← resolveCommit d app with
      | .error .unresolvable => dispatchApps delivery rest (skipped + 1)
      | .error .other => return .error (.resolving app.name)
      | .ok sha =>
        if ← createBuild d app sha delivery then dispatchApps delivery rest skipped
        else return .error (.creating app.name)

/-- Whether the row is to be removed, and an error for the log. -/
def handle (delivery : Delivery) : Prog (Bool × Option HandleError) :=
  match validateDelivery delivery with
  | some e => return (true, some e)
  | none => do
    match ← appsForDelivery d delivery with
    | none => return (false, some .listing)
    | some [] => return (true, some .noApp)
    | some apps =>
      match ← dispatchApps d delivery apps 0 with
      | .error e => return (false, some e)
      | .ok skipped =>
        if skipped = apps.length then return (true, some .unresolvable) else return (true, none)

/-- Claim one delivery and finalize it; `none` on a failure that ends the tick, and
otherwise whether a delivery was removed. -/
def processOne : Prog (Option Bool) := do
  match ← call .claimNext with
  | none => return none
  | some none => return some false
  | some (some claim) =>
    let (remove, _) ← handle d claim.delivery
    if !remove then
      let _ ← call (.nack claim.tx)
      return none
    else if ← call (.ack claim.tx claim.delivery.id) then return some true
    else return none

def buildTerminal (b : Build) : Bool := b.phase = .succeeded || b.phase = .failed

/-- How many more deliveries the tick may process. -/
def budget : Prog (Option Nat) := do
  match ← call .listBuilds with
  | none => return none
  | some builds =>
    return some (d.maxConcurrentBuilds - (builds.filter fun b => !buildTerminal b).length)

def drain : Nat → Prog Unit
  | 0 => return ()
  | n + 1 => do
    match ← processOne d with
    | some true => drain n
    | _ => return ()

def tick : Prog Unit := do
  match ← budget d with
  | none => return ()
  | some n => drain d n

end Orkano.Operator
