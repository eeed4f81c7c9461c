import Mathlib.Algebra.Group.Int.Defs
import Mathlib.Data.List.Basic

/-!
The tables of the metadata store and the queries of its `Store` interface. The constraints of
the migrations are part of each write; a failed insert advances the sequence of ids as well.
-/
namespace Orkano.Dashboard

abbrev Time := Int

/-- What a caller can tell apart about a failed query: no row matched, a unique
index was violated (SQLSTATE 23505), or anything else. -/
inductive DbError where
  | noRows
  | uniqueViolation
  | other
deriving DecidableEq, Repr

/-- A row of `users`. The issuer and subject columns are set together or not at
all, so they are one optional pair. -/
structure User where
  id : Int
  username : String
  passwordHash : String
  totpSecret : String
  totpConfirmedAt : Option Time
  failedLogins : Nat
  lockedUntil : Option Time
  oidc : Option (String × String)
deriving DecidableEq, Repr

def User.confirmed (u : User) : Bool := u.totpConfirmedAt.isSome

def User.linked (u : User) : Bool := u.oidc.isSome

structure Session where
  tokenHash : String
  userId : Int
  expiresAt : Time
  reauthAt : Option Time
deriving DecidableEq, Repr

structure RecoveryCode where
  userId : Int
  codeHash : String
  usedAt : Option Time
deriving DecidableEq, Repr

structure AuditEntry where
  actor : String
  action : String
  target : String
  outcome : String
  detail : String
deriving DecidableEq, Repr

structure Db where
  users : List User
  nextUserId : Int
  sessions : List Session
  recoveryCodes : List RecoveryCode
  auditLog : List AuditEntry
  settings : List (String × String)
deriving DecidableEq, Repr

structure CreateAdminParams where
  username : String
  passwordHash : String
  sealedTOTPSecret : String
  recoveryCodeHashes : List String
deriving DecidableEq, Repr

/-- The admin's row, its second factor not confirmed yet. -/
def CreateAdminParams.row (arg : CreateAdminParams) (id : Int) : User where
  id := id
  username := arg.username
  passwordHash := arg.passwordHash
  totpSecret := arg.sealedTOTPSecret
  totpConfirmedAt := none
  failedLogins := 0
  lockedUntil := none
  oidc := none

namespace Db

def confirmedUsers (db : Db) : List User := db.users.filter User.confirmed

def countConfirmedAdmins (db : Db) : Nat := db.confirmedUsers.length

def findUser (db : Db) (id : Int) : Option User := db.users.find? fun u => u.id = id

def orNoRows {α : Type} : Option α → Except DbError α
  | some a => .ok a
  | none => .error .noRows

def getUserByID (db : Db) (id : Int) : Except DbError User := orNoRows (db.findUser id)

/-- `lower` is the server's case folding of usernames. -/
def getUserByUsername (lower : String → String) (db : Db) (username : String) :
    Except DbError User :=
  orNoRows (db.users.find? fun u => lower u.username = lower username)

def getUserByOIDC (db : Db) (issuer subject : String) : Except DbError User :=
  orNoRows (db.users.find? fun u => u.oidc = some (issuer, subject))

def updateUser (db : Db) (id : Int) (f : User → User) : Db :=
  { db with users := db.users.map fun u => if u.id = id then f u else u }

/-- The index on confirmed rows admits one of them: stamping a row while another
one is confirmed fails, and stamping a row that is gone changes nothing. -/
def confirmUserTOTP (db : Db) (now : Time) (id : Int) : Except DbError Unit × Db :=
  if (db.findUser id).isSome ∧ db.users.any (fun u => u.id ≠ id ∧ u.confirmed) then
    (.error .uniqueViolation, db)
  else (.ok (), db.updateUser id fun u => { u with totpConfirmedAt := some now })

/-- The column is an int4, and the count here has no bound: past the threshold a lockout window
adds one to it. -/
def incrementFailedLogins (db : Db) (id : Int) : Except DbError Nat × Db :=
  match db.findUser id with
  | some u =>
    (.ok (u.failedLogins + 1), db.updateUser id fun u => { u with failedLogins := u.failedLogins + 1 })
  | none => (.error .noRows, db)

def lockUser (db : Db) (id : Int) (lockedUntil : Time) : Db :=
  db.updateUser id fun u => { u with lockedUntil := some lockedUntil }

def resetFailedLogins (db : Db) (id : Int) : Db :=
  db.updateUser id fun u => { u with failedLogins := 0, lockedUntil := none }

/-- Delete the users that satisfy `p`, with their sessions and recovery codes. -/
def deleteUsers (db : Db) (p : User → Bool) : Db :=
  let gone := fun id => db.users.any fun u => u.id = id ∧ p u
  { db with
    users := db.users.filter fun u => !p u
    sessions := db.sessions.filter fun s => !gone s.userId
    recoveryCodes := db.recoveryCodes.filter fun c => !gone c.userId }

def deleteUnconfirmedUsers (db : Db) : Db := db.deleteUsers fun u => !u.confirmed && !u.linked

/-- What a text column with bounds on its length takes. No text of the store has a NUL. -/
def textBetween (lo hi : Nat) (s : String) : Bool :=
  lo ≤ s.length && s.length ≤ hi && !s.toList.contains '\x00'

theorem textBetween_iff {lo hi : Nat} {s : String} :
    textBetween lo hi s = true ↔ (lo ≤ s.length ∧ s.length ≤ hi) ∧ '\x00' ∉ s.toList := by
  simp [textBetween]

/-- The checks and unique indexes of `users` for a new row. -/
def admitsUser (lower : String → String) (db : Db) (u : User) : Except DbError Unit :=
  let checks := textBetween 1 254 u.username && textBetween 0 255 u.passwordHash &&
    textBetween 0 255 u.totpSecret &&
    match u.oidc with
    | some (issuer, subject) => textBetween 1 512 issuer && textBetween 1 255 subject
    | none => true
  if !checks then .error .other
  else if db.users.any fun v => lower v.username = lower u.username then .error .uniqueViolation
  else if u.linked && db.users.any fun v => v.oidc = u.oidc then .error .uniqueViolation
  else .ok ()

/-- Insert the row `mk id` for the next id of the sequence. -/
def insertUser (lower : String → String) (db : Db) (mk : Int → User) : Except DbError User × Db :=
  if 2 ^ 63 ≤ db.nextUserId then (.error .other, db)
  else
    let u := mk db.nextUserId
    let drawn := { db with nextUserId := db.nextUserId + 1 }
    match db.admitsUser lower u with
    | .error e => (.error e, drawn)
    | .ok () => (.ok u, { drawn with users := db.users ++ [u] })

/-- The username is absent when its bytes are no valid UTF-8, which the server
refuses before it draws an id. -/
def createOIDCUser (lower : String → String) (db : Db) (username : Option String)
    (issuer subject : String) : Except DbError User × Db :=
  match username with
  | none => (.error .other, db)
  | some username =>
    db.insertUser lower fun id =>
      { id, username, passwordHash := "", totpSecret := "", totpConfirmedAt := none,
        failedLogins := 0, lockedUntil := none, oidc := some (issuer, subject) }

def insertRecoveryCode (db : Db) (userId : Int) (codeHash : String) : Except DbError Db :=
  if 128 < codeHash.length then .error .other
  else if db.recoveryCodes.any fun c => c.userId = userId ∧ c.codeHash = codeHash then
    .error .uniqueViolation
  else .ok { db with recoveryCodes := db.recoveryCodes ++ [⟨userId, codeHash, none⟩] }

/-- The redeem transaction: clear abandoned enrollments, insert the admin with an
unconfirmed second factor, and store the recovery codes. A failure rolls all of it
back but the sequence. -/
def createAdmin (lower : String → String) (db : Db) (arg : CreateAdminParams) :
    Except DbError User × Db :=
  let (created, db₁) := db.deleteUnconfirmedUsers.insertUser lower arg.row
  let rolledBack := { db with nextUserId := db₁.nextUserId }
  match created with
  | .error e => (.error e, rolledBack)
  | .ok user =>
    match arg.recoveryCodeHashes.foldlM (fun d hash => d.insertRecoveryCode user.id hash) db₁ with
    | .error e => (.error e, rolledBack)
    | .ok db₂ => (.ok user, db₂)

def createSession (db : Db) (tokenHash : String) (userId : Int) (expiresAt : Time) :
    Except DbError Unit × Db :=
  if 128 < tokenHash.length then (.error .other, db)
  else if db.sessions.any fun s => s.tokenHash = tokenHash then (.error .uniqueViolation, db)
  else if (db.findUser userId).isNone then (.error .other, db)
  else (.ok (), { db with sessions := db.sessions ++ [⟨tokenHash, userId, expiresAt, none⟩] })

def getSession (db : Db) (now : Time) (tokenHash : String) : Except DbError Session :=
  orNoRows (db.sessions.find? fun s => s.tokenHash = tokenHash ∧ now < s.expiresAt)

def deleteSession (db : Db) (tokenHash : String) : Db :=
  { db with sessions := db.sessions.filter fun s => s.tokenHash ≠ tokenHash }

def markSessionReauth (db : Db) (now : Time) (tokenHash : String) : Db :=
  { db with
    sessions := db.sessions.map fun s =>
      if s.tokenHash = tokenHash then { s with reauthAt := some now } else s }

/-- Single use: the code is stamped only while it is unused. -/
def consumeRecoveryCode (db : Db) (now : Time) (userId : Int) (codeHash : String) :
    Except DbError Unit × Db :=
  let unused := fun c : RecoveryCode =>
    decide (c.userId = userId ∧ c.codeHash = codeHash ∧ c.usedAt = none)
  if db.recoveryCodes.any unused then
    (.ok (), { db with
      recoveryCodes := db.recoveryCodes.map fun c =>
        if unused c then { c with usedAt := some now } else c })
  else (.error .noRows, db)

def appendAuditEntry (db : Db) (e : AuditEntry) : Except DbError Unit × Db :=
  if textBetween 0 254 e.actor && textBetween 0 100 e.action && textBetween 0 512 e.target &&
      textBetween 0 32 e.outcome then
    (.ok (), { db with auditLog := db.auditLog ++ [e] })
  else (.error .other, db)

def settingKeys : List String :=
  ["access_mode", "github_app_slug", "github_app_id", "github_connected_at", "oidc_configured_at"]

def upsertSetting (db : Db) (key value : String) : Except DbError Unit × Db :=
  if key ∈ settingKeys ∧ textBetween 0 512 value then
    (.ok (), { db with settings := (key, value) :: db.settings.filter fun kv => kv.1 ≠ key })
  else (.error .other, db)

end Db

end Orkano.Dashboard
