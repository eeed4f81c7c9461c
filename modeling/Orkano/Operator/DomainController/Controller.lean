import Mathlib.Data.Finmap
import Mathlib.Data.List.MinMax
import Orkano.Operator.AppController.Controller

/-!
The Domain controller. Of the live Domains that claim a host the oldest wins it and gets an
Ingress; an App's URL is the host of its oldest Domain that wins.
-/
namespace Orkano.Operator.DomainController

open Interleave Program
open AppController (WorkloadType Lookup)

structure Key where
  ns : String
  name : String
deriving DecidableEq, Repr

inductive ConditionStatus where
  | true
  | false
  | unknown
deriving DecidableEq, Repr

inductive Reason where
  | hostConflict
  | appNotFound
  | appNotRoutable
  | certificatePending
  | reconcileError
  | available
  | certificate (reason : String)
deriving DecidableEq, Repr

structure Condition where
  status : ConditionStatus
  reason : Reason
  message : String
  observedGeneration : ℕ
deriving DecidableEq, Repr

structure DomainStatus where
  observedGeneration : ℕ
  ready : Option Condition
  certificateReady : Option Condition
deriving DecidableEq, Repr

structure Route where
  ns : String
  name : String
  uid : ℕ
  createdAt : ℤ
  host : String
  appName : String
deriving DecidableEq, Repr

def Route.key (r : Route) : Key := ⟨r.ns, r.name⟩

def Route.appKey (r : Route) : Key := ⟨r.ns, r.appName⟩

structure Domain extends Route where
  generation : ℕ
  deleting : Bool
  finalizers : List String
  status : DomainStatus
deriving DecidableEq, Repr

def domainFinalizer : String := "orkano.io/domain"

/-- A controlling owner reference, without its version. -/
structure OwnerRef where
  group : String
  kind : String
  name : String
  uid : ℕ
deriving DecidableEq, Repr

def Route.ownerRef (r : Route) : OwnerRef := ⟨"orkano.io", "Domain", r.name, r.uid⟩

/-- `referSameObject` of controllerutil, which does not look at the uid. -/
def OwnerRef.sameObject (a b : OwnerRef) : Bool :=
  a.group = b.group && a.kind = b.kind && a.name = b.name

/-- An Ingress with its one rule. -/
structure Ingress where
  controller : Option OwnerRef
  labels : Finmap fun _ : String => String
  annotations : Finmap fun _ : String => String
  host : String
  serviceName : String
  tlsHost : String
  tlsSecret : String
deriving DecidableEq

structure AppView where
  type : Option WorkloadType
  url : String
deriving DecidableEq, Repr

def AppView.workloadType (app : AppView) : WorkloadType := app.type.getD .web

structure CertificateCondition where
  type : String
  status : String
  reason : String
  message : String
deriving DecidableEq, Repr

def olderDomain (a b : Route) : Bool :=
  if a.createdAt ≠ b.createdAt then a.createdAt < b.createdAt
  else if a.name ≠ b.name then a.name < b.name
  else a.ns < b.ns

def oldest (routes : List Route) : Option Route :=
  routes.foldl (List.argAux fun a b => olderDomain a b = true) none

/-- Domains that are being deleted are passed over. -/
def liveRoutes (domains : List Domain) : List Route :=
  (domains.filter fun d => !d.deleting).map (·.toRoute)

def tlsSecretName (r : Route) : String := r.name ++ "-tls"

def mutateIngress (clusterIssuer : String) (r : Route) (ing : Ingress) : Ingress :=
  { ing with
    labels := (ing.labels.insert "app.orkano.io/app" r.appName).insert
      "app.kubernetes.io/managed-by" "orkano"
    annotations := ing.annotations.insert "cert-manager.io/cluster-issuer" clusterIssuer
    host := r.host
    serviceName := r.appName
    tlsHost := r.host
    tlsSecret := tlsSecretName r }

def newIngress : Ingress := ⟨none, ∅, ∅, "", "", "", ""⟩

/-- `mutateIngress`, then `SetControllerReference`. -/
def routeIngress (clusterIssuer : String) (r : Route) (ing : Ingress) : Ingress :=
  { mutateIngress clusterIssuer r ing with controller := some r.ownerRef }

def setDomainReady (d : Domain) (status : ConditionStatus) (reason : Reason) (message : String) :
    Domain :=
  { d with status := { d.status with ready := some ⟨status, reason, message, d.generation⟩ } }

def setCertificateReady (d : Domain) (status : ConditionStatus) (reason : Reason)
    (message : String) : Domain :=
  { d with status :=
    { d.status with certificateReady := some ⟨status, reason, message, d.generation⟩ } }

def removeCertificateReady (d : Domain) : Domain :=
  { d with status := { d.status with certificateReady := none } }

def parseStatus (status : String) : Option ConditionStatus :=
  if status = "True" then some .true
  else if status = "False" then some .false
  else if status = "Unknown" then some .unknown
  else none

/-- The first Ready condition whose status can be read. -/
def certificateState (r : Route) (conditions : List CertificateCondition) :
    ConditionStatus × Reason × String :=
  match conditions.findSome? fun c =>
      if c.type ≠ "Ready" then none else (parseStatus c.status).map fun s => (s, c) with
  | some (status, c) =>
    (status, .certificate (if c.reason = "" then "Unknown" else c.reason), c.message)
  | none => (.unknown, .certificatePending,
      "Certificate " ++ tlsSecretName r ++ " has no Ready condition yet")

def WorkloadType.text : WorkloadType → String
  | .web => "Web"
  | .worker => "Worker"

/-- The Ready condition of a Domain that has won its host. -/
def routeReady (d : Domain) (app : Option AppView) (certReady : ConditionStatus)
    (certMessage : String) : Domain :=
  match app with
  | none => setDomainReady d .false .appNotFound ("App " ++ d.appName ++ " does not exist")
  | some app =>
    if app.workloadType ≠ .web then
      setDomainReady d .false .appNotRoutable ("App " ++ d.appName ++ " is a " ++
        WorkloadType.text app.workloadType ++ " app and serves no traffic")
    else if certReady ≠ .true then
      setDomainReady d .false .certificatePending
        ("certificate for " ++ d.host ++ " is not ready: " ++ certMessage)
    else setDomainReady d .true .available
        ("routing https://" ++ d.host ++ " to App " ++ d.appName)

structure Failure where
  message : String
  conflict : Bool
deriving DecidableEq, Repr

def Failure.wrap (f : Failure) (text : String) : Failure := ⟨text ++ ": " ++ f.message, f.conflict⟩

inductive Call where
  | getDomain (key : Key)
  | updateDomain (d : Domain)
  | updateDomainStatus (d : Domain)
  | listByHost (host : String)
  | listByApp (app : Key)
  | getIngress (key : Key)
  | createIngress (key : Key) (ing : Ingress)
  | updateIngress (key : Key) (ing : Ingress)
  | deleteIngress (key : Key)
  | getCertificate (key : Key)
  | getApp (key : Key)
  | readApp (key : Key)
  | updateAppStatus (key : Key) (app : AppView)

/-- A successful update hands back the object as it is stored, a Certificate is found with
its conditions or the reason why they cannot be read. -/
@[reducible] def Call.Reply : Call → Type
  | getDomain _ => Lookup Domain
  | updateDomain _ => Except Failure Domain
  | updateDomainStatus _ | createIngress _ _ | updateIngress _ _ | deleteIngress _
  | updateAppStatus _ _ => Option Failure
  | listByHost _ | listByApp _ => Except Failure (List Domain)
  | getIngress _ => Lookup Ingress
  | getCertificate _ => Lookup (Except String (List CertificateCondition))
  | getApp _ | readApp _ => Lookup AppView

@[reducible] def apiServer : Interface := ⟨Call, Call.Reply⟩

abbrev Prog := Program apiServer

def call (c : Call) : Prog c.Reply := @perform apiServer c

def updateStatus (d : Domain) (before : DomainStatus) : Prog (Option Failure) :=
  let status := { d.status with observedGeneration := d.generation }
  if status = before then return none
  else do
    match ← call (.updateDomainStatus { d with status := status }) with
    | none => return none
    | some f => return some (f.wrap "updating Domain status")

/-- Conflicts heal on retry and are not recorded. -/
def failReady (d : Domain) (before : DomainStatus) (f : Failure) : Prog (Option Failure) :=
  if f.conflict then return some f
  else do
    let _ ← updateStatus (setDomainReady d .false .reconcileError f.message) before
    return some f

def hostWinner (host : String) : Prog (Except Failure (Option Route)) := do
  match ← call (.listByHost host) with
  | .error f => return .error f
  | .ok domains => return .ok (oldest (liveRoutes domains))

def deleteOwnIngress (d : Domain) : Prog (Option Failure) := do
  match ← call (.getIngress d.key) with
  | .missing => return none
  | .failed message => return some ⟨message, false⟩
  | .found ing =>
    if ing.controller.map (·.uid) ≠ some d.uid then return none
    else call (.deleteIngress d.key)

/-- `CreateOrUpdate`: an Ingress that nobody controls or somebody else does is refused, and
one that is as wanted is left alone. -/
def applyIngress (clusterIssuer : String) (d : Domain) : Prog (Option Failure) := do
  match ← call (.getIngress d.key) with
  | .failed message => return some ⟨message, false⟩
  | .missing => call (.createIngress d.key (routeIngress clusterIssuer d.toRoute newIngress))
  | .found ing =>
    match ing.controller with
    | none =>
      return some ⟨"existing Ingress " ++ d.ns ++ "/" ++ d.name ++
        " is not managed by Orkano; rename the Domain or delete the Ingress", false⟩
    | some owner =>
      if !owner.sameObject d.ownerRef then
        return some ⟨"Object " ++ d.ns ++ "/" ++ d.name ++ " is already owned by another " ++
          owner.kind ++ " controller " ++ owner.name, false⟩
      else if routeIngress clusterIssuer d.toRoute ing = ing then return none
      else call (.updateIngress d.key (routeIngress clusterIssuer d.toRoute ing))

def observeCertificate (d : Domain) : Prog (Except Failure (ConditionStatus × Reason × String)) := do
  match ← call (.getCertificate ⟨d.ns, tlsSecretName d.toRoute⟩) with
  | .missing =>
    return .ok (.unknown, .certificatePending,
      "waiting for cert-manager to create Certificate " ++ tlsSecretName d.toRoute)
  | .failed message => return .error ⟨message, false⟩
  | .found (.error message) =>
    return .error (Failure.wrap ⟨message, false⟩
      ("reading Certificate " ++ tlsSecretName d.toRoute ++ " conditions"))
  | .found (.ok conditions) => return .ok (certificateState d.toRoute conditions)

/-- The loop over an App's Domains: the oldest live one that wins its host. -/
def oldestWinner : List Domain → Option Route → Prog (Except Failure (Option Route))
  | [], found => return .ok found
  | d :: ds, found =>
    if d.deleting then oldestWinner ds found
    else do
      match ← hostWinner d.host with
      | .error f => return .error f
      | .ok winner =>
        if winner.map (·.key) ≠ some d.key then oldestWinner ds found
        else oldestWinner ds (List.argAux (fun a b => olderDomain a b = true) found d.toRoute)

def appURL (app : Key) (view : AppView) : Prog (Except Failure String) :=
  if view.workloadType ≠ .web then return .ok ""
  else do
    match ← call (.listByApp app) with
    | .error f => return .error f
    | .ok domains =>
      match ← oldestWinner domains none with
      | .error f => return .error f
      | .ok none => return .ok ""
      | .ok (some r) => return .ok ("https://" ++ r.host)

def updateAppURL (app : Key) : Prog (Option Failure) := do
  match ← call (.readApp app) with
  | .missing => return none
  | .failed message => return some ⟨message, false⟩
  | .found view =>
    match ← appURL app view with
    | .error f => return some f
    | .ok url =>
      if view.url = url then return none
      else do
        match ← call (.updateAppStatus app { view with url := url }) with
        | none => return none
        | some f => return some (f.wrap ("updating App " ++ app.name ++ " status.url"))

/-- A dying Domain lets its App's URL be derived without it, and goes. -/
def finalize (d : Domain) : Prog (Option Failure) :=
  if domainFinalizer ∉ d.finalizers then return none
  else do
    match ← updateAppURL d.appKey with
    | some f => return some (f.wrap "recomputing App URL on Domain deletion")
    | none =>
      match ← call (.updateDomain
          { d with finalizers := d.finalizers.filter (· ≠ domainFinalizer) }) with
      | .error f => return some (f.wrap "removing finalizer")
      | .ok _ => return none

def hostConflict (d : Domain) (winner : Option Route) : Domain :=
  setDomainReady (removeCertificateReady d) .false .hostConflict
    ("host " ++ d.host ++ " is already claimed by older Domain " ++ winner.elim "" (·.ns) ++ "/" ++
      winner.elim "" (·.name))

def conflicted (d : Domain) (winner : Option Route) : Prog (Option Failure) := do
  match ← deleteOwnIngress d with
  | some f => failReady d d.status (f.wrap "deleting Ingress of conflicting Domain")
  | none =>
    match ← updateAppURL d.appKey with
    | some f => return some (f.wrap "recomputing App URL")
    | none => updateStatus (hostConflict d winner) d.status

/-- The Ready condition depends on the App and on the Certificate. -/
def announce (d : Domain) (before : DomainStatus) (certReady : ConditionStatus)
    (certMessage : String) : Prog (Option Failure) := do
  match ← call (.getApp d.appKey) with
  | .failed message =>
    failReady d before (Failure.wrap ⟨message, false⟩ ("fetching App " ++ d.appName))
  | .missing => finish (routeReady d none certReady certMessage)
  | .found app => finish (routeReady d (some app) certReady certMessage)
where
  finish (d : Domain) : Prog (Option Failure) := do
    match ← updateAppURL d.appKey with
    | some f => return some (f.wrap "deriving App URL")
    | none => updateStatus d before

def routed (clusterIssuer : String) (d : Domain) : Prog (Option Failure) := do
  match ← applyIngress clusterIssuer d with
  | some f => failReady d d.status (f.wrap "reconciling Ingress")
  | none =>
    match ← observeCertificate d with
    | .error f => failReady d d.status (f.wrap "observing Certificate")
    | .ok (certReady, certReason, certMessage) =>
      announce (setCertificateReady d certReady certReason certMessage) d.status certReady certMessage

/-- From a Domain that carries the finalizer on. -/
def elect (clusterIssuer : String) (d : Domain) : Prog (Option Failure) := do
  match ← hostWinner d.host with
  | .error f => return some (f.wrap "checking host conflicts")
  | .ok winner =>
    if winner.map (·.key) ≠ some d.key then conflicted d winner else routed clusterIssuer d

def reconcile (clusterIssuer : String) (key : Key) : Prog (Option Failure) := do
  match ← call (.getDomain key) with
  | .failed message => return some ⟨message, false⟩
  | .missing => return none
  | .found d =>
    if d.deleting then finalize d
    else if domainFinalizer ∈ d.finalizers then elect clusterIssuer d
    else do
      match ← call (.updateDomain { d with finalizers := d.finalizers ++ [domainFinalizer] }) with
      | .error f => return some (f.wrap "adding finalizer")
      | .ok d => elect clusterIssuer d

end Orkano.Operator.DomainController
