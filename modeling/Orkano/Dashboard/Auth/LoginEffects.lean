import Mathlib.Data.List.Nodup
import Orkano.Dashboard.Auth.Accounts
import Orkano.Dashboard.Auth.Calls

/-!
Login requests handled one at a time, each inverted once into everything it may do to the
users' rows and the trace (`Effect`). The handler of the second factor does not look at the
lock, so no request may carry the challenge of a locked user (`Heeds`).
-/
namespace Orkano.Dashboard

open Interleave Program Relation

variable {P : Primitives} {cfg : ServerConfig} {w w₁ w₂ w' : World} {α : Type}

inductive Attempt where
  | login (r : Request) (body : Option LoginRequest)
  | loginTOTP (r : Request) (body : Option LoginTOTPRequest)

def Attempt.program (P : Primitives) (cfg : ServerConfig) : Attempt → Prog Response
  | login r body => serve P cfg r (.login body)
  | loginTOTP r body => serve P cfg r (.loginTOTP body)

/-- The world answers, and its clock does not run backwards. -/
def steady (P : Primitives) : Machine dashboard World :=
  (machine P false).guard fun _ w _ w' => w.clock ≤ w'.clock

abbrev onward (P : Primitives) (c : Call) (w : World) (x : c.Reply) (w' : World) : Prop :=
  (steady P).exec c w x w'

theorem onward_iff {c : Call} {x : c.Reply} :
    onward P c w x w' ↔ (machine P false).exec c w x w' ∧ w.clock ≤ w'.clock := by
  rw [onward, steady, Machine.exec_guard, decide_eq_true_iff]

/-- An attempt made at time `t` is handled alone and leaves `w'`. -/
def Handles (P : Primitives) (cfg : ServerConfig) (a : Attempt) (t : Time) (w w' : World) : Prop :=
  w.clock ≤ t ∧ ∃ resp, Runs (onward P) (a.program P cfg) { w with clock := t } resp w'

/-- The user whose second-factor challenge a request carries. -/
def challengedUser (r : Request) (w : World) : Option User := do
  let value ← r.cookie challengeCookie
  let entry ← w.lookup value
  let ch ← Challenge.unmarshal entry.2
  if ch.stage = stageTOTP then w.db.findUser ch.uid.toInt else none

/-- No lock of the user is in force at time `t`. -/
def User.OpenAt (u : User) (t : Time) : Prop := ∀ expiry ∈ u.lockedUntil, expiry ≤ t

/-- A second-factor request does not carry the challenge of a locked user. -/
def Heeds (t : Time) (w : World) : Attempt → Prop
  | .loginTOTP r (some _) => ∀ u ∈ challengedUser r w, u.confirmed → u.OpenAt t
  | _ => True

structure Drift (w w' : World) : Prop where
  users : w'.db.users = w.db.users
  trace : w'.trace = w.trace
  clock : w.clock ≤ w'.clock

theorem Drift.refl (w : World) : Drift w w := ⟨rfl, rfl, le_refl _⟩

theorem Drift.trans (h1 : Drift w w₁) (h2 : Drift w₁ w₂) : Drift w w₂ :=
  ⟨h2.users.trans h1.users, h2.trace.trans h1.trace, h1.clock.trans h2.clock⟩

/-- A call that neither writes a user's row nor adds to the trace. -/
def Calm : Call → Prop
  | .now | .cipherSeal _ _ | .cipherOpen _ | .newSessionToken => True
  | .verifyPassword user _ _ => user = none
  | .store (.getUserByUsername _) | .store (.getUserByID _) | .store (.appendAuditEntry _) => True
  | _ => False

/-- A calm call lets the world drift. -/
theorem drift_of_calm {c : Call} {x : c.Reply} (h : onward P c w x w') (hc : Calm c) :
    Drift w w' := by
  obtain ⟨hx, hcl⟩ := onward_iff.mp h
  cases c with
  | now =>
    obtain rfl := exec_now.mp hx
    exact ⟨rfl, rfl, hcl⟩
  | cipherSeal writer text =>
    rcases exec_cipherSeal.mp hx with ⟨-, rfl⟩ | ⟨encoded, -, -, rfl⟩ <;> exact ⟨rfl, rfl, hcl⟩
  | cipherOpen sealed =>
    obtain ⟨-, rfl⟩ := exec_cipherOpen.mp hx
    exact .refl _
  | newSessionToken =>
    obtain ⟨_ | raw, hk⟩ := hx <;> cases hk <;> exact .refl _
  | verifyPassword user hash plain =>
    obtain rfl : user = none := hc
    obtain ⟨k, hk⟩ := hx
    cases hk
    exact .refl _
  | store q =>
    obtain ⟨now, -, rfl⟩ := exec_store_sound hx
    cases q with
    | getUserByUsername username | getUserByID id => exact .refl _
    | appendAuditEntry e =>
      refine ⟨?_, rfl, hcl⟩
      simp only [StoreCall.event, StoreCall.run, Db.appendAuditEntry]
      split <;> rfl
    | _ => exact hc.elim
  | _ => exact hc.elim

theorem drift_of_only {p : Prog α} {a : α} (h : Runs (onward P) p w a w') (hp : p.Only Calm) :
    Drift w w' := by
  have hcl : ∀ (c : Call) s x s', Calm c → onward P c s x s' → Drift s s' :=
    fun _ _ _ _ hc hx => drift_of_calm hx hc
  exact h.of_only Drift.refl Drift.trans hcl hp

theorem calm_audit {r : Request} {actor action target outcome : String} {resp : Response} :
    (audit r actor action target outcome >>= fun _ => pure resp).Only Calm :=
  only_bind (only_audit (fun _ => trivial) _ _ _ _) fun _ => trivial

section Effect

def Db.Keyed (db : Db) : Prop := (db.users.map User.id).Nodup

/-- The failure counter of `u` goes up, and the account is locked at the threshold. -/
def Bumped (u : User) (w w' : World) : Prop :=
  if u.failedLogins + 1 < maxFailedLogins then
    Drift { w with db := (w.db.incrementFailedLogins u.id).2 } w'
  else ∃ now, w.clock ≤ now ∧
    Drift (World.record
      { w with
        clock := now
        db := (w.db.incrementFailedLogins u.id).2.lockUser u.id (now + lockoutWindow) }
      (.locked u.id (now + lockoutWindow))) w'

/-- A second factor is checked for the user with this result, or none was given. -/
def Checked (uid : Int) (ok : Bool) (w w' : World) : Prop :=
  (ok = false ∧ Drift w w') ∨
    ∃ w₁, Drift w w₁ ∧ Drift (w₁.record (.secondFactor uid ok)) w'

/-- A session of the user is created, or creating it failed. -/
def Minted (uid : Int) (w w' : World) : Prop :=
  Drift w w' ∨ ∃ w₁, Drift w w₁ ∧ Drift (w₁.record (.session uid)) w'

/-- Everything an attempt that arrives in `w` may do to the users' rows and the
trace. The lock is looked at for a password, at the time of the check; for a second
factor the user had none when the request arrived. -/
inductive Effect (w w' : World) : Prop where
  | drift (h : Drift w w')
  | password {w₁ : World} {u : User} {ok : Bool} (hpre : Drift w w₁)
      (hu : w.db.findUser u.id = some u) (hok : ok = true ∨ u.confirmed = false)
      (hpost : Drift (w₁.record (.password u.id ok)) w')
  | wrongPassword {w₁ w₂ : World} {u : User} (hpre : Drift w w₁)
      (hu : w.db.findUser u.id = some u) (hconf : u.confirmed) (hopen : u.OpenAt w₁.clock)
      (hbump : Bumped u (w₁.record (.password u.id false)) w₂) (hpost : Drift w₂ w')
  | wrongFactor {w₁ w₂ : World} {u : User} (hu : w.db.findUser u.id = some u)
      (hconf : u.confirmed) (hopen : u.OpenAt w.clock) (hcheck : Checked u.id false w w₁)
      (hbump : Bumped u w₁ w₂) (hpost : Drift w₂ w')
  | passed {w₁ w₂ : World} {u : User} (hu : w.db.findUser u.id = some u) (hconf : u.confirmed)
      (hopen : u.OpenAt w.clock) (hcheck : Checked u.id true w w₁)
      (hreset : Drift { w₁ with db := w₁.db.resetFailedLogins u.id } w₂) (hmint : Minted u.id w₂ w')

theorem Drift.findUser (h : Drift w w') (id : Int) : w'.db.findUser id = w.db.findUser id := by
  rw [Db.findUser, Db.findUser, h.users]

variable {uid : Int} {ok : Bool}

theorem Checked.findUser (h : Checked uid ok w w') (id : Int) :
    w'.db.findUser id = w.db.findUser id := by
  rcases h with ⟨-, h⟩ | ⟨w₁, h, h'⟩
  · exact h.findUser id
  · exact (h'.findUser id).trans (h.findUser id)

theorem Drift.checked (h : Drift w w₁) (h' : Checked uid ok w₁ w') : Checked uid ok w w' := by
  rcases h' with ⟨hok, h'⟩ | ⟨w₂, h', hp⟩
  · exact .inl ⟨hok, h.trans h'⟩
  · exact .inr ⟨w₂, h.trans h', hp⟩

theorem Db.Keyed.findUser {db : Db} (h : db.Keyed) {u : User} (hu : u ∈ db.users) :
    db.findUser u.id = some u := by
  obtain ⟨v, hv⟩ := Option.isSome_iff_exists.mp (Db.findUser_isSome.mpr ⟨u, hu, rfl⟩)
  obtain ⟨hm, hid⟩ := Db.mem_of_findUser hv
  rw [hv, List.inj_on_of_nodup_map h hm hu hid]

theorem runs_call_iff {c : Call} {x : c.Reply} :
    Runs (onward P) (call c) w x w' ↔ onward P c w x w' := runs_perform

private theorem store_sound {q : StoreCall} {x : Except DbError q.Row}
    (h : Runs (onward P) (storeCall q) w x w') :
    ∃ now, x = (q.run P now w.db).1 ∧
      w' = (match q.event x with
        | some e => World.record { w with db := (q.run P now w.db).2 } e
        | none => { w with db := (q.run P now w.db).2 }) :=
  exec_store_sound (onward_iff.mp (runs_call_iff.mp h)).1

/-- A recorded failure counts, and locks at the threshold. -/
theorem runs_recordFailedLogin {u : User} (hu : w.db.findUser u.id = some u)
    (h : Runs (onward P) (recordFailedLogin u.id) w () w') : Bumped u w w' := by
  obtain ⟨count, w₁, hi, h⟩ := runs_bind.mp h
  obtain ⟨_, rfl, rfl⟩ := store_sound hi
  simp only [StoreCall.run, Db.incrementFailedLogins, hu, StoreCall.event] at h
  unfold Bumped
  simp only [Db.incrementFailedLogins, hu]
  split at h
  · rename_i hc
    rw [if_neg (Nat.not_lt.mpr hc)]
    obtain ⟨now, w₁, hn, h⟩ := runs_bind.mp h
    obtain ⟨hn, hle⟩ := onward_iff.mp (runs_call_iff.mp hn)
    obtain rfl := exec_now.mp hn
    obtain ⟨_, w₂, hl, h⟩ := runs_bind.mp h
    obtain ⟨_, rfl, rfl⟩ := store_sound hl
    obtain ⟨-, rfl⟩ := runs_done.mp h
    exact ⟨now, hle, .refl _⟩
  · rename_i hc
    rw [if_pos (Nat.lt_of_not_le hc)]
    obtain ⟨-, rfl⟩ := runs_done.mp h
    exact .refl _

theorem runs_mintSession {raw : Option String} (h : Runs (onward P) (mintSession uid) w raw w') :
    Minted uid w w' := by
  obtain ⟨token, w₁, ht, h⟩ := runs_bind.mp h
  have h1 : Drift w w₁ := drift_of_calm (runs_call_iff.mp ht) trivial
  split at h
  · obtain ⟨-, rfl⟩ := runs_done.mp h
    exact .inl h1
  obtain ⟨now, w₂, hn, h⟩ := runs_bind.mp h
  have h2 : Drift w w₂ := h1.trans (drift_of_calm (runs_call_iff.mp hn) trivial)
  obtain ⟨created, w3, hc, h⟩ := runs_bind.mp h
  obtain ⟨_, hcr, rfl⟩ := store_sound hc
  have hu : ∀ hash expiry, (w₂.db.createSession hash uid expiry).2.users = w₂.db.users := by
    intro hash expiry
    unfold Db.createSession
    repeat' split
    all_goals rfl
  cases created with
  | error e =>
    obtain ⟨-, rfl⟩ := runs_done.mp h
    exact .inl (h2.trans ⟨hu _ _, rfl, le_refl _⟩)
  | ok _ =>
    obtain ⟨-, rfl⟩ := runs_done.mp h
    exact .inr ⟨w₂, h2, hu _ _, rfl, le_refl _⟩

variable {r : Request} {user : User} {resp : Response}

theorem runs_finishSignIn {action : String}
    (h : Runs (onward P) (finishSignIn r user action) w resp w') : Minted user.id w w' := by
  obtain ⟨raw, w₁, hm, h⟩ := runs_bind.mp h
  have hp : Drift w₁ w' := by
    refine drift_of_only h ?_
    split
    · trivial
    · exact calm_audit
  rcases runs_mintSession hm with hd | ⟨w₂, hd, hd'⟩
  · exact .inl (hd.trans hp)
  · exact .inr ⟨w₂, hd, hd'.trans hp⟩

variable {req : LoginTOTPRequest}

/-- A second factor is checked once, with the result on the trace. -/
theorem runs_secondFactorOK (h : Runs (onward P) (secondFactorOK P user req) w ok w') :
    Checked user.id ok w w' := by
  unfold secondFactorOK at h
  split at h
  · obtain ⟨secret, w₁, ho, h⟩ := runs_bind.mp h
    have h1 : Drift w w₁ := drift_of_calm (runs_call_iff.mp ho) trivial
    split at h
    · obtain ⟨rfl, rfl⟩ := runs_done.mp h
      exact .inl ⟨rfl, h1⟩
    obtain ⟨⟨t, hk⟩, hle⟩ := onward_iff.mp (runs_call_iff.mp h)
    obtain ⟨rfl, rfl⟩ := Prod.mk.inj (Option.some.inj hk)
    exact .inr ⟨{ w₁ with clock := t }, h1.trans ⟨rfl, rfl, hle⟩, .refl _⟩
  · split at h
    · obtain ⟨used, w₁, hu, h⟩ := runs_bind.mp h
      obtain ⟨now, -, rfl⟩ := store_sound hu
      have hd : Drift w { w with db := (w.db.consumeRecoveryCode now user.id
          (hashRecoveryCode P req.recoveryCode)).2 } := by
        refine ⟨?_, rfl, le_refl _⟩
        simp only [Db.consumeRecoveryCode]
        split <;> rfl
      cases used <;> obtain ⟨rfl, rfl⟩ := runs_done.mp h <;> exact .inr ⟨_, hd, .refl _⟩
    · obtain ⟨rfl, rfl⟩ := runs_done.mp h
      exact .inl ⟨rfl, .refl _⟩

theorem runs_isLocked {lockedUntil : Option Time}
    (h : Runs (onward P) (handleLogin.isLocked lockedUntil) w false w') :
    ∀ expiry ∈ lockedUntil, expiry ≤ w'.clock := by
  intro expiry he
  obtain rfl : lockedUntil = some expiry := he
  obtain ⟨now, w₁, hn, h⟩ := runs_bind.mp h
  obtain rfl := exec_now.mp (onward_iff.mp (runs_call_iff.mp hn)).1
  obtain ⟨hlt, rfl⟩ := runs_done.mp h
  exact not_lt.mp (of_decide_eq_false hlt.symm)

theorem calm_isLocked (lockedUntil : Option Time) :
    (handleLogin.isLocked lockedUntil).Only Calm := by
  cases lockedUntil with
  | none => trivial
  | some expiry => exact only_bind (only_of_call trivial) fun _ => trivial

private theorem verifyPassword_sound {hash plain : String}
    (h : Runs (onward P) (call (.verifyPassword (some uid) hash plain)) w ok w') :
    w' = w.record (.password uid ok) := by
  obtain ⟨⟨_, hk⟩, -⟩ := onward_iff.mp (runs_call_iff.mp h)
  obtain ⟨rfl, rfl⟩ := Prod.mk.inj (Option.some.inj hk)
  rfl

/-- All that a password attempt can do. -/
theorem effect_login {body : Option LoginRequest} (hk : w.db.Keyed)
    (h : Runs (onward P) (handleLogin cfg r body) w resp w') : Effect w w' := by
  unfold handleLogin at h
  split at h
  · exact .drift (drift_of_only h trivial)
  obtain ⟨found, w₁, hg, h⟩ := runs_bind.mp h
  have h1 : Drift w w₁ := drift_of_calm (runs_call_iff.mp hg) trivial
  cases found with
  | error e =>
    exact .drift (h1.trans (drift_of_only h (only_bind (only_of_call rfl) fun _ => calm_audit)))
  | ok user =>
    have hu : w.db.findUser user.id = some user := by
      obtain ⟨_, hr, -⟩ := store_sound hg
      simp only [StoreCall.run, Db.getUserByUsername] at hr
      generalize hf : w.db.users.find? _ = found at hr
      cases found with
      | none => cases hr
      | some u =>
        cases hr
        exact hk.findUser (List.mem_of_find?_eq_some hf)
    dsimp only at h
    split at h
    · exact .drift (h1.trans (drift_of_only h (only_bind (only_of_call rfl) fun _ => calm_audit)))
    obtain ⟨locked, w₂, hl, h⟩ := runs_bind.mp h
    have h2 : Drift w w₂ := h1.trans (drift_of_only hl (calm_isLocked _))
    cases locked with
    | true => exact .drift (h2.trans (drift_of_only h calm_audit))
    | false =>
      obtain ⟨pwOK, w3, hpw, h⟩ := runs_bind.mp h
      obtain rfl := verifyPassword_sound hpw
      have ho : User.OpenAt user w₂.clock := runs_isLocked hl
      cases hc : User.confirmed user with
      | false =>
        simp only [hc, Bool.not_false, Bool.or_true, Bool.false_and, if_true,
          Bool.false_eq_true, if_false] at h
        exact .password h2 hu (.inr hc) (drift_of_only h calm_audit)
      | true =>
        cases pwOK with
        | false =>
          simp only [hc, Bool.not_false, Bool.true_or, Bool.true_and, if_true] at h
          obtain ⟨_, w4, hrc, h⟩ := runs_bind.mp h
          have hf : (w₂.record (.password user.id false)).db.findUser user.id = some user :=
            (h2.findUser user.id).trans hu
          have hb := runs_recordFailedLogin hf hrc
          exact .wrongPassword h2 hu hc ho hb (drift_of_only h calm_audit)
        | true =>
          simp only [hc, Bool.not_true, Bool.or_false, Bool.false_eq_true, if_false] at h
          refine .password h2 hu (.inl rfl) (drift_of_only h (only_bind ?_ fun cookie => ?_))
          · exact only_sealCookie (fun _ => trivial) trivial
          split
          · trivial
          · exact calm_audit

/-- The user that a second-factor request comes to, and what the condition says of
their lock. -/
theorem challengedUser_of_runs {ch : Challenge}
    (hrd : Runs (onward P) (readChallenge r stageTOTP) w (some ch) w₁)
    (hg : Runs (onward P) (storeCall (.getUserByID ch.uid.toInt)) w₁ (.ok user) w₂) :
    challengedUser r w = some user ∧ w.db.findUser user.id = some user := by
  have hdr : Drift w w₁ := drift_of_only hrd (only_readCookie (fun _ => trivial) trivial)
  have hr' := hrd.mono fun _ _ _ _ h => (onward_iff.mp h).1
  obtain ⟨v, writer, text, hc, hl⟩ := sealed_of_runs_readCookie hr'
  obtain ⟨hd, hs, -, -⟩ := (runs_readCookie hc hl).mp hr'
  have hfn : w.db.findUser ch.uid.toInt = some user := by
    obtain ⟨_, hr, -⟩ := store_sound hg
    simp only [StoreCall.run, Db.getUserByID, hdr.findUser] at hr
    cases hf : w.db.findUser ch.uid.toInt with
    | none => simp [hf, Db.orNoRows] at hr
    | some u =>
      simp only [hf, Db.orNoRows, Except.ok.injEq] at hr
      rw [hr]
  have hid := (Db.mem_of_findUser hfn).2
  refine ⟨?_, hid ▸ hfn⟩
  simp [challengedUser, hc, hl, hd, of_decide_eq_true hs, hfn]

/-- All that a second-factor attempt can do, for a user who was not locked. -/
theorem effect_loginTOTP (hh : Heeds w.clock w (.loginTOTP r (some req)))
    (h : Runs (onward P) (handleLoginTOTP P r (some req)) w resp w') : Effect w w' := by
  obtain ⟨ch, w₁, hr, h⟩ := runs_bind.mp h
  have h1 : Drift w w₁ := drift_of_only hr (only_readCookie (fun _ => trivial) trivial)
  cases ch with
  | none => exact .drift (h1.trans (drift_of_only h trivial))
  | some ch =>
    obtain ⟨found, w₂, hg, h⟩ := runs_bind.mp h
    have h2 : Drift w w₂ := h1.trans (drift_of_calm (runs_call_iff.mp hg) trivial)
    cases found with
    | error e => exact .drift (h2.trans (drift_of_only h trivial))
    | ok user =>
      obtain ⟨hcl, hu⟩ := challengedUser_of_runs hr hg
      cases hc : User.confirmed user with
      | false =>
        simp only [hc, Bool.not_false, if_true] at h
        exact .drift (h2.trans (drift_of_only h trivial))
      | true =>
        have ho : User.OpenAt user w.clock := hh user hcl hc
        simp only [hc, Bool.not_true, Bool.false_eq_true, if_false] at h
        obtain ⟨ok, w3, hch, h⟩ := runs_bind.mp h
        have hc' : Checked user.id ok w w3 := h2.checked (runs_secondFactorOK hch)
        cases ok with
        | false =>
          obtain ⟨_, w4, hrc, h⟩ := runs_bind.mp h
          have hb := runs_recordFailedLogin (hc'.findUser user.id ▸ hu) hrc
          exact .wrongFactor hu hc ho hc' hb (drift_of_only h calm_audit)
        | true =>
          obtain ⟨_, w4, hrs, h⟩ := runs_bind.mp h
          obtain ⟨_, -, rfl⟩ := store_sound hrs
          exact .passed hu hc ho hc' (.refl _) (runs_finishSignIn h)

end Effect

end Orkano.Dashboard
