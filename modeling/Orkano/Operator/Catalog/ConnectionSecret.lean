import Mathlib.Data.Finmap
import Orkano.Interleave.RelyGuarantee
import Orkano.Operator.Api

/-!
The Postgres and Mongo controllers up to the connection Secret, and the API server as it treats
that one Secret. What a reconcile does after `ensureSecret` is left out.
-/
namespace Orkano.Operator.Catalog

open Interleave Program

inductive Engine where
  | postgres
  | mongo
deriving DecidableEq, Repr

def Engine.kind : Engine → String
  | postgres => "Postgres"
  | mongo => "Mongo"

def Engine.port : Engine → ℕ
  | postgres => 5432
  | mongo => 27017

def Engine.versions : Engine → List String
  | postgres => ["14", "15", "16", "17"]
  | mongo => ["8.0"]

def Engine.defaultVersion : Engine → String
  | postgres => "16"
  | mongo => "8.0"

def Engine.uri : Engine → (username password host port database : String) → String
  | postgres, username, password, host, port, database =>
    "postgresql://" ++ username ++ ":" ++ password ++ "@" ++ host ++ ":" ++ port ++ "/" ++ database
  | mongo, username, password, host, port, database =>
    "mongodb://" ++ username ++ ":" ++ password ++ "@" ++ host ++ ":" ++ port ++ "/" ++ database ++
      "?authSource=admin"

structure Object where
  engine : Engine
  ns : String
  name : String
  uid : String
deriving DecidableEq, Repr

/-- What one read shows of the rest. The size is in bytes, and `adminEnabled` stands for
Pgweb or Mongo Express. -/
structure View where
  deleting : Bool
  version : String
  storageSize : Option ℤ
  adminEnabled : Bool
deriving DecidableEq, Repr

def defaultStorageSize : ℤ := 10 * 1024 ^ 3

def minStorageSize : ℤ := 1024 ^ 3

def maxIdentifierLen : ℕ := 63

/-- The pattern of a Service name: a letter first, then letters, digits and hyphens, and
no hyphen at the end. -/
def isDns1035Label (name : String) : Bool :=
  name.toList.head?.any Char.isLower && name.toList.getLast?.any isLowerAlphanum &&
    name.toList.all fun c => isLowerAlphanum c || c = '-'

def Object.nameValid (o : Object) : Bool :=
  isDns1035Label o.name && o.name.length ≤ maxIdentifierLen

def Object.ident (o : Object) : String := o.name.map fun c => if c = '-' then '_' else c

def Object.host (o : Object) : String := o.name ++ "." ++ o.ns ++ ".svc.cluster.local"

def Object.version (o : Object) (v : View) : String :=
  if v.version = "" then o.engine.defaultVersion else v.version

section Secrets

structure OwnerRef where
  group : String
  kind : String
  name : String
  uid : String
  controller : Bool
deriving DecidableEq, Repr

abbrev Data := Finmap fun _ : String => String

/-- `managedBy` is the value of the managed-by label; other labels are neither read nor
changed. -/
structure Secret where
  owners : List OwnerRef
  type : String
  managedBy : String
  immutable : Bool
  data : Data
  resourceVersion : ℕ
deriving DecidableEq

def typeOpaque : String := "Opaque"

def managedByValue : String := "orkano"

def keyURI : String := "uri"
def keyHost : String := "host"
def keyPort : String := "port"
def keyDatabase : String := "database"
def keyUsername : String := "username"
def keyPassword : String := "password"

def Secret.get (s : Secret) (key : String) : String := (s.data.lookup key).getD ""

def Secret.password (s : Secret) : String := s.get keyPassword

def Object.ref (o : Object) : OwnerRef := ⟨"orkano.io", o.engine.kind, o.name, o.uid, true⟩

/-- Group, kind and name decide, the uid does not. -/
def OwnerRef.refersTo (ref : OwnerRef) (o : Object) : Bool :=
  ref.group = "orkano.io" && ref.kind = o.engine.kind && ref.name = o.name

def controllerOf (owners : List OwnerRef) : Option OwnerRef := owners.find? (·.controller)

def isControlledBy (owners : List OwnerRef) (o : Object) : Bool :=
  (controllerOf owners).any fun ref => ref.uid = o.uid

def upsertOwnerRef (o : Object) : List OwnerRef → List OwnerRef
  | [] => [o.ref]
  | ref :: rest => if ref.refersTo o then o.ref :: rest else ref :: upsertOwnerRef o rest

/-- Fails with the controller that is there if it is another object. -/
def setControllerReference (o : Object) (owners : List OwnerRef) :
    Except OwnerRef (List OwnerRef) :=
  match controllerOf owners with
  | some ref => if ref.refersTo o then .ok (upsertOwnerRef o owners) else .error ref
  | none => .ok (upsertOwnerRef o owners)

def connectionData (o : Object) (password : String) : Data :=
  let port := toString o.engine.port
  [⟨keyURI, o.engine.uri o.ident password o.host port o.ident⟩, ⟨keyHost, o.host⟩,
    ⟨keyPort, port⟩, ⟨keyDatabase, o.ident⟩, ⟨keyUsername, o.ident⟩,
    ⟨keyPassword, password⟩].toFinmap

/-- Another object's controller reference is present. -/
def Blocked (o : Object) (owners : List OwnerRef) : Prop :=
  ∃ ref, controllerOf owners = some ref ∧ ref.refersTo o = false

variable {o : Object} {owners : List OwnerRef}

theorem setControllerReference_blocked (h : Blocked o owners) :
    ∃ ref, setControllerReference o owners = .error ref := by
  obtain ⟨ref, hr, ho⟩ := h
  refine ⟨ref, ?_⟩
  simp [setControllerReference, hr, ho]

theorem setControllerReference_free (h : ¬ Blocked o owners) :
    setControllerReference o owners = .ok (upsertOwnerRef o owners) := by
  unfold setControllerReference
  split
  · rename_i ref hr
    by_cases hs : ref.refersTo o
    · rw [if_pos hs]
    · rw [Bool.not_eq_true] at hs
      exact absurd ⟨ref, hr, hs⟩ h
  · rfl

theorem connectionData_password (o : Object) (password : String) :
    (connectionData o password).lookup keyPassword = some password := by
  simp [connectionData, Finmap.dlookup_list_toFinmap, keyURI, keyHost, keyPort, keyDatabase,
    keyUsername, keyPassword]

/-- The URI of a Secret is the one its other entries spell. -/
def Secret.Consistent (o : Object) (s : Secret) : Prop :=
  s.get keyURI = o.engine.uri (s.get keyUsername) s.password (s.get keyHost) (s.get keyPort)
    (s.get keyDatabase)

variable {password : String}

theorem consistent_of_data {s : Secret} (h : s.data = connectionData o password) :
    s.Consistent o := by
  simp [Secret.Consistent, Secret.password, Secret.get, h, connectionData,
    Finmap.dlookup_list_toFinmap, keyURI, keyHost, keyPort, keyDatabase, keyUsername, keyPassword]

theorem password_of_data {s : Secret} (h : s.data = connectionData o password) :
    s.password = password := by
  simp [Secret.password, Secret.get, h, connectionData_password]

end Secrets

inductive GetReply (α : Type) where
  | found (a : α)
  | notFound
  | error

inductive WriteError where
  | alreadyExists
  | conflict
  | other
deriving DecidableEq, Repr

inductive Call where
  | getObject
  | disableAdmin
  | getSecret
  | generatePassword
  | createSecret (s : Secret)
  | updateSecret (s : Secret)

@[reducible] def Call.Reply : Call → Type
  | getObject => GetReply View
  | disableAdmin => Bool
  | getSecret => GetReply Secret
  | generatePassword => Option String
  | createSecret _ | updateSecret _ => Option WriteError

@[reducible] def cluster : Interface := ⟨Call, Call.Reply⟩

abbrev Prog := Program cluster

def call (c : Call) : Prog c.Reply := @perform cluster c

inductive EnsureError where
  | read
  | random
  | alreadyOwned (kind name : String)
  | write (e : WriteError)
deriving DecidableEq, Repr

/-- The object that a missing Secret is built from. -/
def blankSecret : Secret := ⟨[], "", "", false, ∅, 0⟩

/-- The object that is sent: the one that was read, or a blank one, with the fields that
the controller owns set. -/
def renderSecret (o : Object) (existing : Option Secret) (owners : List OwnerRef)
    (password : String) : Secret :=
  { existing.getD blankSecret with
    owners := owners
    type := typeOpaque
    managedBy := managedByValue
    data := connectionData o password }

def upToDate (o : Object) (e : Secret) (password : String) : Bool :=
  e.data = connectionData o password && e.type = typeOpaque && isControlledBy e.owners o &&
    e.managedBy = managedByValue

def writeSecret (o : Object) (existing : Option Secret) (password : String) :
    Prog (Option EnsureError) :=
  match setControllerReference o (existing.getD blankSecret).owners with
  | .error owner => return some (.alreadyOwned owner.kind owner.name)
  | .ok owners =>
    match existing with
    | none => do
      return (← call (.createSecret (renderSecret o existing owners password))).map .write
    | some e =>
      if upToDate o e password then return none
      else do return (← call (.updateSecret (renderSecret o existing owners password))).map .write

def storedPassword : Option Secret → String
  | none => ""
  | some e => e.password

/-- The password that was read is kept; only an empty one is generated. -/
def fillSecret (o : Object) (existing : Option Secret) : Prog (Option EnsureError) :=
  if storedPassword existing = "" then do
    match ← call .generatePassword with
    | none => return some .random
    | some password => writeSecret o existing password
  else writeSecret o existing (storedPassword existing)

def ensureSecret (o : Object) : Prog (Option EnsureError) := do
  match ← call .getSecret with
  | .error => return some .read
  | .notFound => fillSecret o none
  | .found existing => fillSecret o (some existing)

inductive Outcome where
  | readFailed
  | ignored
  | invalidName
  | noImage (version : String)
  | storageTooSmall (size : ℤ)
  | disableFailed
  | secretFailed (e : EnsureError)
  | secretReady
deriving DecidableEq, Repr

def provision (o : Object) : Prog Outcome := do
  match ← ensureSecret o with
  | some e => return .secretFailed e
  | none => return .secretReady

def reconcile (o : Object) : Prog Outcome := do
  match ← call .getObject with
  | .error => return .readFailed
  | .notFound => return .ignored
  | .found v =>
    if v.deleting then return .ignored
    else if !o.nameValid then return .invalidName
    else if o.version v ∉ o.engine.versions then return .noImage (o.version v)
    else if v.storageSize.getD defaultStorageSize < minStorageSize then
      return .storageTooSmall (v.storageSize.getD defaultStorageSize)
    else if !v.adminEnabled then
      if ← call .disableAdmin then provision o else return .disableFailed
    else provision o

section Cluster

/-- The Secret under the object's name. `clock` is the next resource version; `stores`
lists what `ensureSecret` stored and `foreignWrites` counts what everybody else did. -/
structure World where
  secret : Option Secret
  clock : ℕ
  stores : List Secret
  foreignWrites : ℕ

def World.initial (secret : Option Secret) : World :=
  ⟨secret.map ({ · with resourceVersion := 0 }), 1, [], 0⟩

def World.store (w : World) (s : Secret) : World :=
  let s := { s with resourceVersion := w.clock }
  { w with secret := some s, clock := w.clock + 1, stores := s :: w.stores }

def World.create (w : World) (s : Secret) : Option WriteError × World :=
  match w.secret with
  | none => (none, w.store s)
  | some _ => (some .alreadyExists, w)

/-- The type of a Secret cannot be changed, nor the data of an immutable one. -/
def World.update (w : World) (s : Secret) : Option WriteError × World :=
  match w.secret with
  | none => (some .other, w)
  | some cur =>
    if cur.resourceVersion ≠ s.resourceVersion then (some .conflict, w)
    else if cur.type ≠ s.type ∨ cur.immutable ∧ cur.data ≠ s.data then (some .other, w)
    else (none, w.store s)

def hexEncode (bytes : List UInt8) : String :=
  String.ofList (bytes.flatMap fun b => [Nat.digitChar (b.toNat / 16), Nat.digitChar (b.toNat % 16)])

@[reducible] def Call.Choice : Call → Type
  | getObject => GetReply View
  | disableAdmin => Bool
  | getSecret => Bool
  | generatePassword => Option { bytes : List UInt8 // bytes.length = 24 }
  | createSecret _ | updateSecret _ => Option Fault

/-- Reads of the object come from a cache and are edited by its user, so they may show
anything; reads of the Secret are live. -/
def answer : (c : Call) → c.Choice → World → Option (c.Reply × World)
  | .getObject, x, w => some (x, w)
  | .disableAdmin, x, w => some (x, w)
  | .getSecret, true, w => some (.error, w)
  | .getSecret, false, w => some (w.secret.elim .notFound .found, w)
  | .generatePassword, none, w => some (none, w)
  | .generatePassword, some bytes, w => some (some (hexEncode bytes.1), w)
  | .createSecret s, none, w => some (w.create s)
  | .createSecret _, some .before, w => some (some .other, w)
  | .createSecret s, some .after, w => some (some .other, (w.create s).2)
  | .updateSecret s, none, w => some (w.update s)
  | .updateSecret _, some .before, w => some (some .other, w)
  | .updateSecret s, some .after, w => some (some .other, (w.update s).2)

def machine : Machine cluster World where
  Choice := Call.Choice
  answer := answer

def ForeignWrite (w w' : World) : Prop :=
  ∃ new : Option Secret, w' =
    { w with
      secret := new.map ({ · with resourceVersion := w.clock })
      clock := w.clock + 1
      foreignWrites := w.foreignWrites + 1 }

/-- Any number of reconciles of one object, interleaved, which may die at any moment. -/
def reconciles (o : Object) (env : World → World → Prop) : System cluster World ℕ Outcome where
  exec _ := machine.exec
  env := env
  restart w w' := w' = w
  starts _ p := p = reconcile o

variable {w w' : World} {s : Secret}

theorem exec_getObject {x : GetReply View} (h : machine.exec .getObject w x w') : w' = w := by
  obtain ⟨_, hk⟩ := h
  cases hk
  rfl

theorem exec_disableAdmin {x : Bool} (h : machine.exec .disableAdmin w x w') : w' = w := by
  obtain ⟨_, hk⟩ := h
  cases hk
  rfl

theorem exec_getSecret {x : GetReply Secret} (h : machine.exec .getSecret w x w') :
    w' = w ∧ (∀ s, x = .found s → w.secret = some s) ∧ (x = .notFound → w.secret = none) := by
  obtain ⟨_ | _, hk⟩ := h
  · obtain ⟨rfl, rfl⟩ := Prod.mk.inj (Option.some.inj hk)
    cases hs : w.secret <;> simp
  · cases hk
    simp

theorem hexEncode_ne_empty {bytes : List UInt8} (h : bytes.length = 24) : hexEncode bytes ≠ "" := by
  obtain _ | ⟨b, rest⟩ := bytes
  · simp at h
  · simp [hexEncode, String.ofList_eq_empty_iff]

theorem exec_generatePassword {x : Option String} (h : machine.exec .generatePassword w x w') :
    w' = w ∧ x ≠ some "" := by
  obtain ⟨_ | bytes, hk⟩ := h
  · cases hk
    simp
  · cases hk
    exact ⟨rfl, fun hx => hexEncode_ne_empty bytes.2 (Option.some.inj hx)⟩

variable {x : Option WriteError}

/-- A create stores the Secret only where there is none. -/
theorem exec_createSecret (h : machine.exec (.createSecret s) w x w') :
    w' = w ∨ w.secret = none ∧ w' = w.store s := by
  have hc : (w.create s).2 = w ∨ w.secret = none ∧ (w.create s).2 = w.store s := by
    unfold World.create
    split
    · rename_i hn
      exact .inr ⟨hn, rfl⟩
    · exact .inl rfl
  obtain ⟨_ | _ | _, hk⟩ := h
  · have hw' : (w.create s).2 = w' := congrArg Prod.snd (Option.some.inj hk)
    exact hw' ▸ hc
  · cases hk
    exact .inl rfl
  · cases hk
    exact hc

/-- An update replaces the version that it names, or changes nothing. -/
theorem exec_updateSecret (h : machine.exec (.updateSecret s) w x w') :
    w' = w ∨ ∃ cur, w.secret = some cur ∧ cur.resourceVersion = s.resourceVersion ∧
      cur.type = s.type ∧ (cur.immutable → cur.data = s.data) ∧ w' = w.store s := by
  have hu : (w.update s).2 = w ∨ ∃ cur, w.secret = some cur ∧
      cur.resourceVersion = s.resourceVersion ∧ cur.type = s.type ∧
      (cur.immutable → cur.data = s.data) ∧ (w.update s).2 = w.store s := by
    unfold World.update
    split
    · exact .inl rfl
    rename_i cur hc
    split
    · exact .inl rfl
    rename_i hv
    split
    · exact .inl rfl
    rename_i hvl
    simp only [ne_eq, not_not, not_or, not_and] at hv hvl
    exact .inr ⟨cur, hc, hv, hvl.1, hvl.2, rfl⟩
  obtain ⟨_ | _ | _, hk⟩ := h
  · have hw' : (w.update s).2 = w' := congrArg Prod.snd (Option.some.inj hk)
    exact hw' ▸ hu
  · cases hk
    exact .inl rfl
  · cases hk
    exact hu

end Cluster

end Orkano.Operator.Catalog
