import Mathlib.Data.List.Infix
import Orkano.Interleave.Program
import Orkano.Operator.Api
import Orkano.Text.Quote

/-!
The App controller: one reconcile as a program over its reads and writes. What a Deployment or a
Service looks like beyond the image is left out.
-/
namespace Orkano.Operator.AppController

open Interleave Program Text

inductive WorkloadType where
  | web
  | worker
deriving DecidableEq, Repr

inductive Reason where
  | waitingForBuild
  | invalidImage
  | reconcileError
  | progressing
  | available
deriving DecidableEq, Repr

structure Ready where
  status : Bool
  reason : Reason
  message : String
  observedGeneration : ℕ
deriving DecidableEq, Repr

structure AppStatus where
  observedGeneration : ℕ
  ready : Option Ready
  image : String
  url : String
  availableReplicas : ℤ
  latestBuild : String
deriving DecidableEq, Repr

def AppStatus.empty : AppStatus := ⟨0, none, "", "", 0, ""⟩

/-- The Builds that the two fields of a status were read off. The code does not keep them. -/
structure Origin where
  latest : Option Build
  image : Option Build
deriving DecidableEq, Repr

/-- An unset type reads as `none`. -/
structure AppObject where
  ns : String
  name : String
  resourceVersion : ℕ
  generation : ℕ
  deleting : Bool
  type : Option WorkloadType
  replicas : Option ℤ
  status : AppStatus
  origin : Origin
deriving DecidableEq, Repr

def workloadType (app : AppObject) : WorkloadType := app.type.getD .web

def hasImage (b : Build) : Bool := b.phase = .succeeded && b.image ≠ ""

def newestImage (builds : List Build) (ns appName : String) : Option Build :=
  (sortBuilds (buildsOf builds ns appName)).find? hasImage

/-- What an App's status takes over from the Builds; without any it stays as it is. -/
def observe (builds : List Build) (app : AppObject) : AppObject :=
  match observeBuilds builds app.ns app.name with
  | none => app
  | some (latest, image) =>
    { app with
      status := { app.status with latestBuild := latest, image := image.getD app.status.image }
      origin := ⟨newestBuild builds app.ns app.name,
        (newestImage builds app.ns app.name).or app.origin.image⟩ }

def setReady (app : AppObject) (status : Bool) (reason : Reason) (message : String) : AppObject :=
  { app with status := { app.status with ready := some ⟨status, reason, message, app.generation⟩ } }

def digestPinned (image : String) : Bool := "@sha256:".toList <:+: image.toList

inductive Lookup (α : Type) where
  | failed (message : String)
  | missing
  | found (a : α)
deriving DecidableEq, Repr

/-- The answer to `CreateOrUpdate`. -/
inductive Applied (α : Type) where
  | applied (a : α)
  | conflict
  | failed (message : String)
deriving DecidableEq, Repr

/-- A list of Builds is handed out whole; the selection by App is part of the observation.
The Deployment is answered with its available replicas, a Service that is found with
whether the App controls it. -/
inductive Call where
  | getApp
  | listBuilds
  | applyDeployment (app : AppObject)
  | getService
  | deleteService
  | applyService
  | updateStatus (app : AppObject)

@[reducible] def Call.Reply : Call → Type
  | .getApp => Lookup AppObject
  | .listBuilds => Option (List Build)
  | .applyDeployment _ => Applied ℤ
  | .getService => Lookup Bool
  | .deleteService => Option String
  | .applyService => Applied Unit
  | .updateStatus _ => Bool

@[reducible] def apiServer : Interface := ⟨Call, Call.Reply⟩

abbrev Prog := Program apiServer

def call (c : Call) : Prog c.Reply := @perform apiServer c

inductive Failure where
  | fetchApp
  | observingBuilds
  | invalidImage
  | deployment
  | service
  | updatingStatus
deriving DecidableEq, Repr

def updateStatus (app : AppObject) (before : AppStatus) : Prog (Option Failure) :=
  let status := { app.status with observedGeneration := app.generation }
  if status = before then return none
  else do
    if ← call (.updateStatus { app with status := status }) then return none
    else return some .updatingStatus

/-- The failure is recorded before it is handed on; that the record was not written is only
logged. -/
def failReady (app : AppObject) (before : AppStatus) (reason : Reason) (message : String)
    (failure : Failure) : Prog (Option Failure) := do
  let _ ← updateStatus (setReady app false reason message) before
  return some failure

/-- A Service for a Web App, and none of the App's own for another. The answer is a
failure, with its text unless it is a conflict. -/
def ensureService (app : AppObject) : Prog (Option (Option String)) :=
  if workloadType app ≠ .web then do
    match ← call .getService with
    | .missing => return none
    | .failed message => return some (some ("checking Service for non-Web app: " ++ message))
    | .found controlled =>
      if controlled then do
        match ← call .deleteService with
        | none => return none
        | some message => return some (some ("deleting Service for non-Web app: " ++ message))
      else return none
  else do
    match ← call .applyService with
    | .applied _ => return none
    | .conflict => return some none
    | .failed message => return some (some ("reconciling Service: " ++ message))

def reportReplicas (app : AppObject) (available : ℤ) : AppObject :=
  let desired := app.replicas.getD 1
  let replicas := toString available ++ "/" ++ toString desired ++ " replicas available"
  let app := { app with status := { app.status with availableReplicas := available } }
  if desired ≤ available then setReady app true .available replicas
  else setReady app false .progressing replicas

def rollOut (app : AppObject) (before : AppStatus) : Prog (Option Failure) :=
  if app.status.image = "" then
    updateStatus (setReady app false .waitingForBuild
      "no successful Build has produced an image yet") before
  else if !digestPinned app.status.image then
    failReady app before .invalidImage
      ("refusing non-digest-pinned image " ++ quoted app.status.image) .invalidImage
  else do
    match ← call (.applyDeployment app) with
    | .conflict => return some .deployment
    | .failed message =>
      failReady app before .reconcileError ("reconciling Deployment: " ++ message) .deployment
    | .applied available =>
      match ← ensureService app with
      | some none => return some .service
      | some (some message) => failReady app before .reconcileError message .service
      | none => updateStatus (reportReplicas app available) before

def reconcile : Prog (Option Failure) := do
  match ← call .getApp with
  | .failed _ => return some .fetchApp
  | .missing => return none
  | .found app =>
    if app.deleting then return none
    else do
      match ← call .listBuilds with
      | none => return some .observingBuilds
      | some builds => rollOut (observe builds app) app.status

end Orkano.Operator.AppController
