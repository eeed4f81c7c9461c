import Orkano.Interleave.RelyGuarantee
import Orkano.Dashboard.Auth.Credentials

/-!
What the request handlers call, and the world that answers. The cipher is ideal: `open`
succeeds exactly on the strings `seal` returned. Who sealed a string, whom a credential was
checked for, and the trace are recorded for statements only.
-/
namespace Orkano.Dashboard

open Interleave

inductive Writer where
  | challenge (stage : String)
  | oidc
  | github
  | totpSeed
deriving DecidableEq, Repr

inductive StoreCall where
  | countConfirmedAdmins
  | getUserByUsername (username : String)
  | getUserByID (id : Int)
  | getUserByOIDC (issuer subject : String)
  | createOIDCUser (username : Option String) (issuer subject : String)
  | confirmUserTOTP (id : Int)
  | incrementFailedLogins (id : Int)
  | lockUser (id : Int) (lockedUntil : Time)
  | resetFailedLogins (id : Int)
  | createSession (tokenHash : String) (userId : Int) (expiresAt : Time)
  | getSession (tokenHash : String)
  | touchSession (tokenHash : String)
  | deleteSession (tokenHash : String)
  | markSessionReauth (tokenHash : String)
  | consumeRecoveryCode (userId : Int) (codeHash : String)
  | appendAuditEntry (e : AuditEntry)
  | upsertSetting (key value : String)
  | createAdmin (arg : CreateAdminParams)

namespace StoreCall

@[reducible] def Row : StoreCall → Type
  | countConfirmedAdmins => Nat
  | getUserByUsername _ | getUserByID _ | getUserByOIDC _ _ | createOIDCUser _ _ _ => User
  | createAdmin _ => User
  | incrementFailedLogins _ => Nat
  | getSession _ => Session
  | _ => Unit

/-- The statement's effect on the tables, at the database's own time. The idle
clock that `touchSession` slides is not part of the model. -/
def run (P : Primitives) (now : Time) (db : Db) : (c : StoreCall) → Except DbError c.Row × Db
  | countConfirmedAdmins => (.ok db.countConfirmedAdmins, db)
  | getUserByUsername username => (db.getUserByUsername P.lower username, db)
  | getUserByID id => (db.getUserByID id, db)
  | getUserByOIDC issuer subject => (db.getUserByOIDC issuer subject, db)
  | createOIDCUser username issuer subject => db.createOIDCUser P.lower username issuer subject
  | confirmUserTOTP id => db.confirmUserTOTP now id
  | incrementFailedLogins id => db.incrementFailedLogins id
  | lockUser id lockedUntil => (.ok (), db.lockUser id lockedUntil)
  | resetFailedLogins id => (.ok (), db.resetFailedLogins id)
  | createSession tokenHash userId expiresAt => db.createSession tokenHash userId expiresAt
  | getSession tokenHash => (db.getSession now tokenHash, db)
  | touchSession _ => (.ok (), db)
  | deleteSession tokenHash => (.ok (), db.deleteSession tokenHash)
  | markSessionReauth tokenHash => (.ok (), db.markSessionReauth now tokenHash)
  | consumeRecoveryCode userId codeHash => db.consumeRecoveryCode now userId codeHash
  | appendAuditEntry e => db.appendAuditEntry e
  | upsertSetting key value => db.upsertSetting key value
  | createAdmin arg => db.createAdmin P.lower arg

end StoreCall

inductive Call where
  | now
  | cipherSeal (writer : Writer) (plaintext : String)
  | cipherOpen (sealed : String)
  | hashPassword (plain : String)
  | verifyPassword (user : Option Int) (hash plain : String)
  | generateTOTP (issuer account : String)
  | validateTOTP (user : Int) (secret code : String)
  | generateRecoveryCodes (n : Nat)
  | newSessionToken
  | newFlowSecrets
  | randomState
  | exchangeOIDC (code nonce verifier : String)
  | exchangeGitHub (code : String)
  | updateSecret (name : String) (data : List (String × String))
  | store (c : StoreCall)

/-- The type of an answer; `none` stands for an error the caller cannot look into. -/
@[reducible] def Call.Reply : Call → Type
  | now => Time
  | cipherSeal _ _ | cipherOpen _ | hashPassword _ | randomState => Option String
  | verifyPassword _ _ _ | validateTOTP _ _ _ | updateSecret _ _ => Bool
  | generateTOTP _ _ => Option (Seed × String)
  | generateRecoveryCodes _ => Option (List String × List String)
  | newSessionToken => Option (String × String)
  | newFlowSecrets => Option (String × String × String)
  | exchangeOIDC _ _ _ => Option Identity
  | exchangeGitHub _ => Option GitHubAppCredentials
  | store c => Except DbError c.Row

abbrev dashboard : Interface := ⟨Call, Call.Reply⟩

inductive Event where
  | password (user : Int) (ok : Bool)
  | secondFactor (user : Int) (ok : Bool)
  | locked (user : Int) (lockedUntil : Time)
  | session (user : Int)
deriving DecidableEq, Repr

/-- `clock` is the last time read, and the trace is newest first. -/
structure World where
  db : Db
  sealed : List (String × Writer × String)
  secrets : List (String × List (String × String))
  clock : Time
  trace : List (Time × Event)

namespace World

def record (w : World) (e : Event) : World := { w with trace := (w.clock, e) :: w.trace }

def lookup (w : World) (sealed : String) : Option (Writer × String) := w.sealed.lookup sealed

end World

structure StoreChoice where
  now : Time
  fault : Option Fault

/-- What is left open at each call: readings, random values, remote answers, and
failures. -/
@[reducible] def Call.Choice : Call → Type
  | now => Time
  | cipherSeal _ _ | hashPassword _ | randomState | newSessionToken => Option String
  | cipherOpen _ | verifyPassword _ _ _ => Unit
  | generateTOTP _ _ => Option (Seed × String)
  | validateTOTP _ _ _ => Time
  | generateRecoveryCodes _ => Option (List (List UInt8))
  | newFlowSecrets => Option (String × String × String)
  | exchangeOIDC _ _ _ => Option Identity
  | exchangeGitHub _ => Option GitHubAppCredentials
  | updateSecret _ _ => Bool
  | store _ => StoreChoice

def StoreCall.event : (c : StoreCall) → Except DbError c.Row → Option Event
  | consumeRecoveryCode userId _, r => some (.secondFactor userId r.isOk)
  | lockUser id lockedUntil, .ok _ => some (.locked id lockedUntil)
  | createSession _ userId _, .ok _ => some (.session userId)
  | _, _ => none

def StoreCall.perform (P : Primitives) (c : StoreCall) (now : Time) (w : World) :
    Except DbError c.Row × World :=
  let (r, db) := c.run P now w.db
  let w := { w with db }
  (r, match c.event r with
    | some e => w.record e
    | none => w)

/-- A generated value with its freshness or shape condition, or an error. -/
def generated {α β : Type} (w : World) (ok : α → Bool) (reply : α → β) :
    Option α → Option (Option β × World)
  | none => some (none, w)
  | some a => if ok a then some (some (reply a), w) else none

/-- Answers of the world; with `faulty`, the store may also fail from outside. -/
def answer (P : Primitives) (faulty : Bool) :
    (c : Call) → c.Choice → World → Option (c.Reply × World)
  | .now, t, w => some (t, { w with clock := t })
  | .cipherSeal writer plaintext, choice, w =>
    match choice with
    | none => some (none, w)
    | some encoded =>
      let sealed := "v1:" ++ encoded
      if (w.lookup sealed).isSome then none
      else some (some sealed, { w with sealed := (sealed, writer, plaintext) :: w.sealed })
  | .cipherOpen sealed, _, w => some ((w.lookup sealed).map Prod.snd, w)
  | .hashPassword plain, hash, w => generated w (fun h => P.passwordMatches h plain) id hash
  | .verifyPassword user hash plain, _, w =>
    let ok := P.passwordMatches hash plain
    some (ok, match user with
      | some u => w.record (.password u ok)
      | none => w)
  | .generateTOTP _ _, key, w => some (key, w)
  | .validateTOTP user secret code, t, w =>
    let ok := P.totpValid t secret code
    some (ok, World.record { w with clock := t } (.secondFactor user ok))
  | .generateRecoveryCodes n, bytes, w =>
    generated w
      (fun bs => bs.length = n ∧ bs.all fun b => b.length = recoveryGroups * recoveryGroupLen)
      (fun bs =>
        let plain := bs.map newRecoveryCode
        (plain, plain.map (hashRecoveryCode P)))
      bytes
  | .newSessionToken, raw, w => generated w (fun _ => true) (fun raw => (raw, hashToken P raw)) raw
  | .newFlowSecrets, secrets, w =>
    generated w (fun s => s.1 ≠ "" ∧ s.2.1 ≠ "" ∧ s.2.2 ≠ "") id secrets
  | .randomState, state, w => generated w (fun s => s ≠ "") id state
  | .exchangeOIDC _ _ _, identity, w => generated w (fun id => id.subject ≠ "") id identity
  | .exchangeGitHub _, creds, w => some (creds, w)
  | .updateSecret name data, reached, w =>
    if reached && w.secrets.any (fun s => s.1 = name) then
      some (true, { w with secrets := w.secrets.map fun s => if s.1 = name then (name, data) else s })
    else some (false, w)
  | .store c, choice, w =>
    match choice.fault with
    | none => some (c.perform P choice.now w)
    | some .before => if faulty then some (.error .other, w) else none
    | some .after => if faulty then some (.error .other, (c.perform P choice.now w).2) else none

def machine (P : Primitives) (faulty : Bool) : Machine dashboard World where
  Choice := Call.Choice
  answer := answer P faulty

section Exec

variable {P : Primitives} {faulty : Bool} {w w' : World}

private theorem world_of_generated {α β : Type} {ok : α → Bool} {reply : α → β} {o : Option α}
    {x : Option β} (h : generated w ok reply o = some (x, w')) : w' = w := by
  unfold generated at h
  split at h
  · cases h
    rfl
  · split at h <;> cases h
    rfl

private theorem sealed_perform (q : StoreCall) (now : Time) (w : World) :
    (q.perform P now w).2.sealed = w.sealed := by
  unfold StoreCall.perform
  dsimp only
  split <;> rfl

private theorem db_perform (q : StoreCall) (now : Time) (w : World) :
    (q.perform P now w).2.db = (q.run P now w.db).2 := by
  unfold StoreCall.perform
  dsimp only
  split <;> rfl

@[simp] theorem exec_now {t : Time} :
    (machine P faulty).exec .now w t w' ↔ w' = { w with clock := t } := by
  constructor
  · rintro ⟨k, hk⟩
    cases hk
    rfl
  · rintro rfl
    exact ⟨t, rfl⟩

variable {x : Option String}

@[simp] theorem exec_cipherOpen {sealed : String} :
    (machine P faulty).exec (.cipherOpen sealed) w x w' ↔
      x = (w.lookup sealed).map Prod.snd ∧ w' = w := by
  constructor
  · rintro ⟨k, hk⟩
    cases hk
    exact ⟨rfl, rfl⟩
  · rintro ⟨rfl, rfl⟩
    exact ⟨(), rfl⟩

/-- Sealing adds one entry under a string that was not sealed before. -/
theorem exec_cipherSeal {writer : Writer} {plaintext : String} :
    (machine P faulty).exec (.cipherSeal writer plaintext) w x w' ↔
      (x = none ∧ w' = w) ∨
      ∃ encoded, x = some ("v1:" ++ encoded) ∧ w.lookup ("v1:" ++ encoded) = none ∧
        w' = { w with sealed := ("v1:" ++ encoded, writer, plaintext) :: w.sealed } := by
  constructor
  · rintro ⟨_ | encoded, hk⟩
    · simp only [machine, answer, Option.some.injEq, Prod.mk.injEq] at hk
      exact .inl ⟨hk.1.symm, hk.2.symm⟩
    simp only [machine, answer] at hk
    split at hk
    · cases hk
    rename_i hf
    simp only [Option.some.injEq, Prod.mk.injEq] at hk
    exact .inr ⟨encoded, hk.1.symm, by simpa using hf, hk.2.symm⟩
  · rintro (⟨rfl, rfl⟩ | ⟨encoded, rfl, hf, rfl⟩)
    · exact ⟨none, rfl⟩
    · exact ⟨some encoded, by simp [machine, answer, hf]⟩

/-- Only the store changes the tables, and only the cipher what is sealed. -/
theorem exec_frame {c : Call} {x : c.Reply} (h : (machine P faulty).exec c w x w') :
    (w'.db = w.db ∨ ∃ q, c = .store q) ∧
      (w'.sealed = w.sealed ∨ ∃ writer text, c = .cipherSeal writer text) := by
  obtain ⟨k, hk⟩ := h
  cases c with
  | cipherSeal writer text =>
    refine ⟨.inl ?_, .inr ⟨writer, text, rfl⟩⟩
    rcases exec_cipherSeal.mp ⟨k, hk⟩ with ⟨-, rfl⟩ | ⟨encoded, -, -, rfl⟩ <;> rfl
  | now | cipherOpen _ | generateTOTP _ _ | validateTOTP _ _ _ | exchangeGitHub _ =>
    cases hk
    exact ⟨.inl rfl, .inl rfl⟩
  | verifyPassword user _ _ =>
    cases hk
    cases user <;> exact ⟨.inl rfl, .inl rfl⟩
  | hashPassword _ | generateRecoveryCodes _ | newSessionToken | newFlowSecrets | randomState
  | exchangeOIDC _ _ _ =>
    obtain rfl := world_of_generated hk
    exact ⟨.inl rfl, .inl rfl⟩
  | updateSecret name data =>
    simp only [machine, answer] at hk
    split at hk <;> cases hk <;> exact ⟨.inl rfl, .inl rfl⟩
  | store q =>
    refine ⟨.inr ⟨q, rfl⟩, .inl ?_⟩
    obtain ⟨now, fault⟩ := k
    rcases fault with _ | _ | _
    · cases hk
      exact sealed_perform q now w
    · simp only [machine, answer] at hk
      split at hk <;> cases hk
      rfl
    simp only [machine, answer] at hk
    split at hk <;> cases hk
    exact sealed_perform q now w

variable {q : StoreCall}

/-- A query answers from the tables and leaves its effect, or fails from outside
with or without it. -/
theorem exec_store {x : Except DbError q.Row}
    (h : (machine P faulty).exec (.store q) w x w') :
    ∃ now, (x = (q.run P now w.db).1 ∧ w'.db = (q.run P now w.db).2) ∨
      (x = .error .other ∧ (w'.db = w.db ∨ w'.db = (q.run P now w.db).2)) := by
  obtain ⟨⟨now, fault⟩, hk⟩ := h
  refine ⟨now, ?_⟩
  rcases fault with _ | _ | _
  · cases hk
    exact .inl ⟨rfl, db_perform q now w⟩
  · simp only [machine, answer] at hk
    split at hk <;> cases hk
    exact .inr ⟨rfl, .inl rfl⟩
  simp only [machine, answer] at hk
  split at hk <;> cases hk
  exact .inr ⟨rfl, .inr (db_perform q now w)⟩

/-- A query of a store that does not fail from outside: its answer, its effect on
the tables, and what it adds to the trace. -/
theorem exec_store_sound {x : Except DbError q.Row}
    (h : (machine P false).exec (.store q) w x w') :
    ∃ now, x = (q.run P now w.db).1 ∧
      w' = (match q.event x with
        | some e => World.record { w with db := (q.run P now w.db).2 } e
        | none => { w with db := (q.run P now w.db).2 }) := by
  obtain ⟨⟨now, _ | _ | _⟩, hk⟩ := h
  · obtain ⟨rfl, rfl⟩ := Prod.mk.inj (Option.some.inj hk)
    exact ⟨now, rfl, rfl⟩
  · cases hk
  · cases hk

theorem exec_of_sound {c : Call} {x : c.Reply} (h : (machine P false).exec c w x w') :
    (machine P faulty).exec c w x w' := by
  obtain ⟨k, hk⟩ := h
  refine ⟨k, ?_⟩
  cases c with
  | store q =>
    obtain ⟨now, _ | _ | _⟩ := k
    · exact hk
    · cases hk
    · cases hk
  | _ => exact hk

end Exec

end Orkano.Dashboard
