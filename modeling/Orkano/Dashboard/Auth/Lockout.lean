import Orkano.Lockout.Policy
import Orkano.Dashboard.Auth.LoginEffects

/-!
Lockout of an account over sequences of login requests: per account, every request is a run
of the lockout policy.
-/
namespace Orkano.Dashboard

open Interleave Program Relation List

variable {P : Primitives} {cfg : ServerConfig} {w w₁ w₂ w' : World}

section Account

variable {uid : Int}

namespace Event

/-- An evaluated guess at the user's credentials and whether it passed. A right
password is half a login and settles nothing. -/
def guess (uid : Int) : Event → Option Bool
  | password user false => if user = uid then some false else none
  | secondFactor user ok => if user = uid then some ok else none
  | _ => none

def lock (uid : Int) : Event → Option Time
  | locked user lockedUntil => if user = uid then some lockedUntil else none
  | _ => none

/-- A second factor was checked for the user, or a session created. -/
def isSignIn (uid : Int) : Event → Bool
  | secondFactor user _ | session user => user = uid
  | _ => false

end Event

def signIns (uid : Int) (trace : List (Time × Event)) : List (Time × Event) :=
  trace.filter fun e => e.2.isSignIn uid

/-- What the lockout policy sees of a user's row and the trace. -/
def account (uid : Int) (w : World) : Lockout.Account Time where
  failures := (w.db.findUser uid).elim 0 User.failedLogins
  lockedUntil := (w.db.findUser uid).bind User.lockedUntil
  clock := w.clock
  history := w.trace.filterMap fun e => (e.2.guess uid).map fun ok => (e.1, ok)
  locks := w.trace.filterMap fun e => e.2.lock uid

theorem account_drift (h : Drift w w') :
    account uid w' = { account uid w with clock := w'.clock } := by
  simp only [account, h.findUser uid, h.trace]

variable {e : Event}

theorem account_record_of_none (hg : e.guess uid = none) (hl : e.lock uid = none) :
    account uid (w.record e) = account uid w := by
  simp [account, World.record, hg, hl]

theorem account_record_of_guess {ok : Bool} (hg : e.guess uid = some ok) (hl : e.lock uid = none) :
    account uid (w.record e) = (account uid w).guess ok := by
  simp [account, World.record, Lockout.Account.guess, hg, hl]

variable {db : Db} {id : Int} {f : User → User}

theorem Db.findUser_updateUser (hf : ∀ u, (f u).id = u.id) (uid : Int) :
    (db.updateUser id f).findUser uid =
      (db.findUser uid).map fun u => if u.id = id then f u else u := by
  have hid : ((fun u : User => decide (u.id = uid)) ∘ fun u => if u.id = id then f u else u) =
      fun u => decide (u.id = uid) := by
    funext u
    simp only [Function.comp_apply]
    split <;> simp [hf]
  simp only [Db.findUser, Db.updateUser, find?_map, hid]

theorem Db.findUser_updateUser_of_ne (hf : ∀ u, (f u).id = u.id) (hne : id ≠ uid) :
    (db.updateUser id f).findUser uid = db.findUser uid := by
  rw [Db.findUser_updateUser hf]
  cases hfn : db.findUser uid with
  | none => rfl
  | some u =>
    have hid : u.id ≠ id := (Db.mem_of_findUser hfn).2 ▸ hne.symm
    simp [hid]

variable {u : User}

theorem Db.findUser_updateUser_self (hf : ∀ u, (f u).id = u.id) (hu : db.findUser u.id = some u) :
    (db.updateUser u.id f).findUser u.id = some (f u) := by
  rw [Db.findUser_updateUser hf, hu]
  simp

structure Later (uid : Int) (w w' : World) : Prop where
  same : account uid w' = { account uid w with clock := w'.clock }
  clock : w.clock ≤ w'.clock

theorem Later.trans (h1 : Later uid w w₁) (h2 : Later uid w₁ w₂) : Later uid w w₂ :=
  ⟨by rw [h2.same, h1.same], h1.clock.trans h2.clock⟩

theorem Drift.later (h : Drift w w') : Later uid w w' := ⟨account_drift h, h.clock⟩

theorem later_record (hg : e.guess uid = none) (hl : e.lock uid = none) :
    Later uid w (w.record e) := ⟨account_record_of_none hg hl, le_refl _⟩

theorem users_incrementFailedLogins (hu : db.findUser u.id = some u) :
    (db.incrementFailedLogins u.id).2 =
      db.updateUser u.id fun u => { u with failedLogins := u.failedLogins + 1 } := by
  simp [Db.incrementFailedLogins, hu]

theorem Bumped.later_of_ne (h : Bumped u w w') (hne : u.id ≠ uid)
    (hu : w.db.findUser u.id = some u) : Later uid w w' := by
  unfold Bumped at h
  rw [users_incrementFailedLogins hu] at h
  split at h
  · refine ⟨?_, h.clock⟩
    rw [account_drift h]
    simp [account, Db.findUser_updateUser_of_ne, hne]
  obtain ⟨now, hn, h⟩ := h
  refine ⟨?_, hn.trans h.clock⟩
  rw [account_drift h, account_record_of_none rfl (by simp [Event.lock, hne])]
  simp [account, Db.lockUser, Db.findUser_updateUser_of_ne, hne]

/-- For the user itself, a failed login is a bump of the policy. -/
theorem account_bumped_self (hu : w.db.findUser u.id = some u) (h : Bumped u w w') :
    ∃ now, w.clock ≤ now ∧ now ≤ w'.clock ∧
      account u.id w' = { (account u.id w).bump maxFailedLogins lockoutWindow now with
        clock := w'.clock } := by
  unfold Bumped at h
  rw [users_incrementFailedLogins hu] at h
  have hi := Db.findUser_updateUser_self
    (f := fun u => { u with failedLogins := u.failedLogins + 1 }) (fun _ => rfl) hu
  split at h
  · rename_i hlt
    refine ⟨w.clock, le_refl _, h.clock, ?_⟩
    rw [account_drift h]
    simp [account, Lockout.Account.bump, hi, hu, Nat.not_le.mpr hlt]
  rename_i hge
  obtain ⟨now, hn, h⟩ := h
  refine ⟨now, hn, h.clock, ?_⟩
  have hl := Db.findUser_updateUser_self
    (f := fun v => { v with lockedUntil := some (now + lockoutWindow) }) (fun _ => rfl)
    (u := { u with failedLogins := u.failedLogins + 1 }) hi
  rw [account_drift h]
  simp [account, World.record, Event.guess, Event.lock, Lockout.Account.bump, Db.lockUser, hl,
    hu, Nat.not_lt.mp hge]

theorem Checked.later_of_ne {ok : Bool} (hne : id ≠ uid) (h : Checked id ok w w') :
    Later uid w w' := by
  rcases h with ⟨-, h⟩ | ⟨w₁, h, h'⟩
  · exact h.later
  · exact h.later.trans ((later_record (by simp [Event.guess, hne]) rfl).trans h'.later)

theorem Minted.later (h : Minted id w w') : Later uid w w' := by
  rcases h with h | ⟨w₁, h, h'⟩
  · exact h.later
  · exact h.later.trans ((later_record rfl rfl).trans h'.later)

abbrev Admits : Lockout.Account Time → Lockout.Account Time → Prop :=
  ReflTransGen (Lockout.Step maxFailedLogins lockoutWindow)

theorem Later.admits (h : Later uid w w') : Admits (account uid w) (account uid w') := by
  rw [h.same]
  exact .single (.wait h.clock)

theorem account_open (hu : w.db.findUser u.id = some u) (h : u.OpenAt w.clock) :
    (account u.id w).Open := by
  simp only [Lockout.Account.Open, account, hu, Option.bind_some]
  exact h

theorem admits_fail (hu : w.db.findUser u.id = some u) (ho : u.OpenAt w.clock)
    (hg : e.guess u.id = some false) (hl : e.lock u.id = none) (h1 : Drift (w.record e) w₁)
    (h2 : Bumped u w₁ w₂) : Admits (account u.id w) (account u.id w₂) := by
  have hu1 : w₁.db.findUser u.id = some u := (h1.findUser u.id).trans hu
  obtain ⟨now, hn, hle, ha⟩ := account_bumped_self hu1 h2
  rw [account_drift h1, account_record_of_guess hg hl] at ha
  rw [ha]
  exact .tail (.single (.fail (account_open hu ho) (h1.clock.trans hn))) (.wait hle)

theorem admits_blank (hu : w.db.findUser u.id = some u) (ho : u.OpenAt w.clock)
    (h : Bumped u w w₁) : Admits (account u.id w) (account u.id w₁) := by
  obtain ⟨now, hn, hle, ha⟩ := account_bumped_self hu h
  rw [ha]
  exact .tail (.single (.blank (account_open hu ho) hn)) (.wait hle)

theorem admits_pass (hu : w.db.findUser u.id = some u) (ho : u.OpenAt w.clock)
    (h1 : Drift (w.record (.secondFactor u.id true)) w₁)
    (h2 : Drift { w₁ with db := w₁.db.resetFailedLogins u.id } w₂) :
    Admits (account u.id w) (account u.id w₂) := by
  have hu1 : w₁.db.findUser u.id = some u := (h1.findUser u.id).trans hu
  have hr : account u.id { w₁ with db := w₁.db.resetFailedLogins u.id } =
      (account u.id w₁).reset := by
    have hf := Db.findUser_updateUser_self
      (f := fun v => { v with failedLogins := 0, lockedUntil := none }) (fun _ => rfl) hu1
    simp [account, Lockout.Account.reset, Db.resetFailedLogins, hf]
  have hg : Event.guess u.id (.secondFactor u.id true) = some true := by simp [Event.guess]
  rw [account_drift h2, hr, account_drift h1, account_record_of_guess hg rfl]
  exact .tail (.single (.pass (account_open hu ho))) (.wait (h1.clock.trans h2.clock))

theorem User.OpenAt.mono {t t' : Time} (h : u.OpenAt t) (hle : t ≤ t') : u.OpenAt t' :=
  fun expiry he => (h expiry he).trans hle

/-- Per enrolled account, every attempt is a run of the lockout policy. -/
theorem Effect.admits (h : Effect w w') {row : User} (hrw : w.db.findUser uid = some row)
    (hcn : row.confirmed) : Admits (account uid w) (account uid w') := by
  cases h with
  | drift h => exact h.later.admits
  | @password w₁ u ok hpr hu hok hp =>
    have hg : Event.guess uid (.password u.id ok) = none := by
      rcases hok with rfl | hun
      · rfl
      -- the row of `uid` is confirmed, so this is another user
      have hne : u.id ≠ uid := by
        rintro rfl
        rw [hu, Option.some.injEq] at hrw
        rw [hrw, hcn] at hun
        cases hun
      cases ok <;> simp [Event.guess, hne]
    exact (hpr.later.trans ((later_record hg rfl).trans hp.later)).admits
  | @wrongPassword w₁ w₂ u hpr hu hcu ho hb hp =>
    have hu1 : w₁.db.findUser u.id = some u := (hpr.findUser u.id).trans hu
    by_cases hid : u.id = uid
    · subst hid
      have hg : Event.guess u.id (.password u.id false) = some false := by simp [Event.guess]
      exact (hpr.later.admits.trans (admits_fail hu1 ho hg rfl (.refl _) hb)).trans
        hp.later.admits
    have hrc : Later uid w₁ (w₁.record (.password u.id false)) :=
      later_record (by simp [Event.guess, hid]) rfl
    exact (hpr.later.trans (hrc.trans ((hb.later_of_ne hid hu1).trans hp.later))).admits
  | @wrongFactor w₁ w₂ u hu hcu ho hc hb hp =>
    by_cases hid : u.id = uid
    · subst hid
      refine .trans ?_ hp.later.admits
      rcases hc with ⟨-, hd⟩ | ⟨w0, hd, hd'⟩
      · have hu1 : w₁.db.findUser u.id = some u := (hd.findUser u.id).trans hu
        exact hd.later.admits.trans (admits_blank hu1 (ho.mono hd.clock) hb)
      have hg : Event.guess u.id (.secondFactor u.id false) = some false := by
        simp [Event.guess]
      have hu0 : w0.db.findUser u.id = some u := (hd.findUser u.id).trans hu
      exact hd.later.admits.trans
        (admits_fail hu0 (ho.mono hd.clock) hg rfl hd' hb)
    · have hu1 : w₁.db.findUser u.id = some u := (hc.findUser u.id).trans hu
      exact ((hc.later_of_ne hid).trans ((hb.later_of_ne hid hu1).trans hp.later)).admits
  | @passed w₁ w₂ u hu hcu ho hc hr hm =>
    by_cases hid : u.id = uid
    · subst hid
      rcases hc with ⟨hno, -⟩ | ⟨w0, hd, hd'⟩
      · cases hno
      have hu0 : w0.db.findUser u.id = some u := (hd.findUser u.id).trans hu
      exact (hd.later.admits.trans (admits_pass hu0 (ho.mono hd.clock) hd' hr)).trans
        hm.later.admits
    have hot : Later uid w₁ { w₁ with db := w₁.db.resetFailedLogins u.id } := by
      refine ⟨?_, le_refl _⟩
      simp [account, Db.resetFailedLogins, Db.findUser_updateUser_of_ne, hid]
    exact ((hc.later_of_ne hid).trans (hot.trans (hr.later.trans hm.later))).admits

end Account

section Run

variable {uid : Int}

/-- Which users there are, and whose second factor is confirmed. -/
def Db.roster (db : Db) : List (Int × Bool) := db.users.map fun u => (u.id, u.confirmed)

variable {db : Db} {id : Int}

theorem Db.roster_updateUser {f : User → User} (hid : ∀ u, (f u).id = u.id)
    (hc : ∀ u, (f u).confirmed = u.confirmed) : (db.updateUser id f).roster = db.roster := by
  simp only [Db.roster, Db.updateUser, List.map_map]
  refine map_congr_left fun u _ => ?_
  simp only [Function.comp_apply]
  split <;> simp [hid, hc]

theorem Db.roster_lockUser {t : Time} : (db.lockUser id t).roster = db.roster :=
  Db.roster_updateUser (fun _ => rfl) fun _ => rfl

theorem Db.roster_resetFailedLogins : (db.resetFailedLogins id).roster = db.roster :=
  Db.roster_updateUser (fun _ => rfl) fun _ => rfl

theorem Drift.roster (h : Drift w w') : w'.db.roster = w.db.roster := by
  rw [Db.roster, Db.roster, h.users]

theorem Bumped.roster {u : User} (h : Bumped u w w') (hu : w.db.findUser u.id = some u) :
    w'.db.roster = w.db.roster := by
  unfold Bumped at h
  rw [users_incrementFailedLogins hu] at h
  split at h
  · exact h.roster.trans (Db.roster_updateUser (fun _ => rfl) fun _ => rfl)
  · obtain ⟨now, -, h⟩ := h
    exact h.roster.trans (Db.roster_lockUser.trans (Db.roster_updateUser (fun _ => rfl) fun _ => rfl))

theorem Checked.roster {ok : Bool} (h : Checked id ok w w') : w'.db.roster = w.db.roster := by
  rcases h with ⟨-, h⟩ | ⟨w₁, h, h'⟩
  · exact h.roster
  · exact h'.roster.trans h.roster

theorem Minted.roster (h : Minted id w w') : w'.db.roster = w.db.roster := by
  rcases h with h | ⟨w₁, h, h'⟩
  · exact h.roster
  · exact h'.roster.trans h.roster

theorem Effect.roster (h : Effect w w') : w'.db.roster = w.db.roster := by
  cases h with
  | drift h => exact h.roster
  | password hpr hu hok hp => exact hp.roster.trans hpr.roster
  | wrongPassword hpr hu hcn ho hb hp =>
    exact hp.roster.trans ((hb.roster ((hpr.findUser _).trans hu)).trans hpr.roster)
  | wrongFactor hu hcn ho hc hb hp =>
    exact hp.roster.trans ((hb.roster ((hc.findUser _).trans hu)).trans hc.roster)
  | passed hu hcn ho hc hr hm =>
    exact hm.roster.trans
      (hr.roster.trans (Db.roster_resetFailedLogins.trans hc.roster))

theorem Db.keyed_of_roster {db' : Db} (h : db'.roster = db.roster) (hk : db.Keyed) : db'.Keyed := by
  have hi : ∀ d : Db, d.users.map User.id = d.roster.map Prod.fst := by simp [Db.roster]
  rw [Db.Keyed, hi, h, ← hi]
  exact hk

theorem Db.Keyed.mem_roster (hk : db.Keyed) :
    (uid, true) ∈ db.roster ↔ ∃ u, db.findUser uid = some u ∧ u.confirmed := by
  constructor
  · intro h
    obtain ⟨u, hu, heq⟩ := mem_map.mp h
    obtain ⟨rfl, hc⟩ := Prod.mk.inj heq
    exact ⟨u, hk.findUser hu, hc⟩
  rintro ⟨u, hu, hc⟩
  obtain ⟨hm, rfl⟩ := Db.mem_of_findUser hu
  exact mem_map.mpr ⟨u, hm, by rw [hc]⟩

/-- An attempt locks no account but a confirmed one. -/
theorem Effect.locks_of_not_mem (h : Effect w w') (hk : w.db.Keyed)
    (hun : (uid, true) ∉ w.db.roster) : (account uid w').locks = (account uid w).locks := by
  have hne : ∀ {u : User}, w.db.findUser u.id = some u → u.confirmed → u.id ≠ uid := by
    rintro u hu hc rfl
    exact hun (hk.mem_roster.mpr ⟨u, hu, hc⟩)
  have hl : ∀ {w w' : World}, Later uid w w' → (account uid w').locks = (account uid w).locks :=
    fun h => by rw [h.same]
  cases h with
  | drift h => exact hl h.later
  | @password w₁ u ok hpr hu hok hp =>
    rw [hl hp.later, ← hl hpr.later]
    simp [account, World.record, Event.lock]
  | @wrongPassword w₁ w₂ u hpr hu hc ho hb hp =>
    have hid := hne hu hc
    have hrc : Later uid w₁ (w₁.record (.password u.id false)) :=
      later_record (by simp [Event.guess, hid]) rfl
    exact hl (hpr.later.trans (hrc.trans
      ((hb.later_of_ne hid ((hpr.findUser _).trans hu)).trans hp.later)))
  | wrongFactor hu hc ho hch hb hp =>
    have hid := hne hu hc
    exact hl ((hch.later_of_ne hid).trans
      ((hb.later_of_ne hid ((hch.findUser _).trans hu)).trans hp.later))
  | @passed w₁ w₂ u hu hc ho hch hr hm =>
    rw [hl hm.later, hl hr.later, ← hl (hch.later_of_ne (hne hu hc))]
    simp [account]

theorem Drift.signIns (h : Drift w w') : signIns uid w'.trace = signIns uid w.trace := by
  rw [h.trace]

theorem signIns_record {e : Event} (he : e.isSignIn uid = false) :
    signIns uid (w.record e).trace = signIns uid w.trace := by
  simp [Dashboard.signIns, World.record, he]

theorem Bumped.signIns {u : User} (h : Bumped u w w') :
    signIns uid w'.trace = signIns uid w.trace := by
  unfold Bumped at h
  split at h
  · exact h.signIns
  · obtain ⟨now, -, h⟩ := h
    exact h.signIns.trans (signIns_record rfl)

theorem Checked.signIns_of_ne {id : Int} {ok : Bool} (hne : id ≠ uid) (h : Checked id ok w w') :
    signIns uid w'.trace = signIns uid w.trace := by
  rcases h with ⟨-, h⟩ | ⟨w₁, h, h'⟩
  · exact h.signIns
  · exact h'.signIns.trans ((signIns_record (by simp [Event.isSignIn, hne])).trans h.signIns)

theorem Minted.signIns_of_ne {id : Int} (hne : id ≠ uid) (h : Minted id w w') :
    signIns uid w'.trace = signIns uid w.trace := by
  rcases h with h | ⟨w₁, h, h'⟩
  · exact h.signIns
  · exact h'.signIns.trans ((signIns_record (by simp [Event.isSignIn, hne])).trans h.signIns)

/-- An attempt that arrives while a user is locked checks no second factor of theirs
and creates no session for them. -/
theorem Effect.signIns (h : Effect w w')
    (hs : ∀ u, w.db.findUser uid = some u → ¬ u.OpenAt w.clock) :
    signIns uid w'.trace = signIns uid w.trace := by
  have hne : ∀ {u : User}, w.db.findUser u.id = some u → u.OpenAt w.clock → u.id ≠ uid := by
    rintro u hu ho rfl
    exact hs u hu ho
  cases h with
  | drift h => exact h.signIns
  | password hpr hu hok hp =>
    exact hp.signIns.trans ((signIns_record rfl).trans hpr.signIns)
  | wrongPassword hpr hu hcn ho hb hp =>
    exact hp.signIns.trans (hb.signIns.trans ((signIns_record rfl).trans hpr.signIns))
  | wrongFactor hu hcn ho hc hb hp =>
    exact hp.signIns.trans (hb.signIns.trans (hc.signIns_of_ne (hne hu ho)))
  | @passed w₁ w₂ u hu hcn ho hc hr hm =>
    have hid := hne hu ho
    have ht : Dashboard.signIns uid w₂.trace = Dashboard.signIns uid w₁.trace := hr.signIns
    exact (hm.signIns_of_ne hid).trans (ht.trans (hc.signIns_of_ne hid))

theorem Handles.effect {a : Attempt} {t : Time} (h : Handles P cfg a t w w') (hk : w.db.Keyed)
    (hh : Heeds t w a) : Effect { w with clock := t } w' := by
  obtain ⟨-, resp, h⟩ := h
  cases a with
  | login r body => exact effect_login hk h
  | loginTOTP r body =>
    cases body with
    | none => exact .drift (drift_of_only h trivial)
    | some req => exact effect_loginTOTP hh h

/-- An attempt that is handled and meets the condition. -/
def Attempted (P : Primitives) (cfg : ServerConfig) (w w' : World) : Prop :=
  ∃ a t, Handles P cfg a t w w' ∧ Heeds t w a

/-- Every enrolled account is in a state of the lockout policy, and nobody else has
ever been locked. -/
structure Watched (w : World) : Prop where
  keyed : w.db.Keyed
  policy : ∀ uid, (uid, true) ∈ w.db.roster →
    Lockout.Invariant maxFailedLogins lockoutWindow (account uid w)
  others : ∀ uid, (uid, true) ∉ w.db.roster → (account uid w).locks = []

theorem watched_of_trace_nil (hk : w.db.Keyed) (ht : w.trace = []) : Watched w where
  keyed := hk
  policy uid _ := by constructor <;> simp [account, ht, Lockout.Paced, Lockout.pending, maxFailedLogins]
  others uid _ := by simp [account, ht]

theorem Watched.attempted (hw : Watched w) (h : Attempted P cfg w w') : Watched w' := by
  obtain ⟨a, t, hh, hhd⟩ := h
  have he := hh.effect hw.keyed hhd
  have ha : Drift w { w with clock := t } := ⟨rfl, rfl, hh.1⟩
  have hr : w'.db.roster = w.db.roster := he.roster
  refine ⟨Db.keyed_of_roster hr hw.keyed, fun uid hm => ?_, fun uid hm => ?_⟩
  · rw [hr] at hm
    obtain ⟨row, hrw, hc⟩ := hw.keyed.mem_roster.mp hm
    have hs := ha.later.admits.trans (he.admits hrw hc)
    exact (hw.policy uid hm).steps (by decide) hs
  rw [hr] at hm
  rw [he.locks_of_not_mem hw.keyed hm]
  exact hw.others uid hm

/-- Any number of attempts keep every account within the lockout policy. -/
theorem Watched.steps (hw : Watched w) (h : ReflTransGen (Attempted P cfg) w w') : Watched w' := by
  induction h with
  | refl => exact hw
  | tail _ hs ih => exact ih.attempted hs

/-- Between two accepted second factors, at most `maxFailedLogins` wrong guesses at
the user's credentials fall into one lockout window. -/
def BoundsGuesses (uid : Int) (trace : List (Time × Event)) : Prop :=
  ∀ newer seg older a, trace = newer ++ seg ++ older → (∀ e ∈ seg, e.2.guess uid ≠ some true) →
    (seg.filter fun e =>
      e.2.guess uid = some false ∧ a ≤ e.1 ∧ e.1 < a + lockoutWindow).length ≤ maxFailedLogins

private theorem length_filter_history (seg : List (Time × Event)) (a b : Time) :
    ((seg.filterMap fun e => (e.2.guess uid).map fun ok => (e.1, ok)).filter fun e =>
        e.2 = false ∧ a ≤ e.1 ∧ e.1 < b).length =
      (seg.filter fun e => e.2.guess uid = some false ∧ a ≤ e.1 ∧ e.1 < b).length := by
  induction seg with
  | nil => rfl
  | cons e seg ih =>
    cases hg : e.2.guess uid with
    | none => simpa [hg] using ih
    | some ok =>
      by_cases hin : ok = false ∧ a ≤ e.1 ∧ e.1 < b
      · simpa [hg, filter_cons, hin] using ih
      · simpa [hg, filter_cons, hin] using ih

/-- A paced history bounds the guesses of every stretch without a pass. -/
theorem boundsGuesses_of_paced
    (h : Lockout.Paced maxFailedLogins lockoutWindow (account uid w).history) :
    BoundsGuesses uid w.trace := by
  intro newer seg older a ht hs
  simp only [account, ht, filterMap_append, append_assoc] at h
  have hw : ∀ e ∈ seg.filterMap fun e => (e.2.guess uid).map fun ok => (e.1, ok),
      e.2 = false := by
    intro e he
    obtain ⟨x, hx, hm⟩ := mem_filterMap.mp he
    obtain ⟨ok, hok, rfl⟩ := Option.map_eq_some_iff.mp hm
    cases ok with
    | false => rfl
    | true => exact absurd hok (hs x hx)
  rw [← length_filter_history]
  refine le_trans (le_of_eq ?_) (h.of_append.wrong_le (by decide) hw a)
  congr 1
  refine filter_congr fun e he => ?_
  simp [hw e he]

end Run

instance (t : Time) (w : World) (a : Attempt) : Decidable (Heeds t w a) :=
  match a with
  | .loginTOTP r (some _) =>
    inferInstanceAs (Decidable (∀ u ∈ challengedUser r w, u.confirmed →
      ∀ expiry ∈ u.lockedUntil, expiry ≤ t))
  | .loginTOTP _ none | .login _ _ => inferInstanceAs (Decidable True)

def enrolledWorld : World :=
  { emptyWorld with
    db := { emptyWorld.db with
      users := [⟨1, "admin", "correct horse", "v1:", some 0, 0, none, none⟩]
      nextUserId := 2 }
    sealed := [("v1:", .totpSeed, "A")] }

/-- A run of attempts on fixed inputs, each at its own time and allowed by `ok`. -/
def sampleAttempts (ok : Time → World → Attempt → Bool) :
    List (Time × Attempt) → World → Option World
  | [], w => some w
  | (t, a) :: rest, w =>
    if w.clock ≤ t ∧ ok t w a then
      ((steady samplePrimitives).simulate (samplePick t)
        (a.program samplePrimitives sampleConfig) { w with clock := t }).bind fun r =>
          sampleAttempts ok rest r.2
    else none

/-- The sample's run is one of the system. -/
theorem steps_sampleAttempts {ok : Time → World → Attempt → Bool} {R : World → World → Prop}
    (hR : ∀ a t w w', Handles samplePrimitives sampleConfig a t w w' → ok t w a → R w w')
    {l : List (Time × Attempt)} (h : sampleAttempts ok l w = some w') : ReflTransGen R w w' := by
  induction l generalizing w with
  | nil =>
    cases h
    exact .refl
  | cons e l ih =>
    obtain ⟨t, a⟩ := e
    rw [sampleAttempts] at h
    split at h
    · rename_i hok
      obtain ⟨⟨resp, w₁⟩, hs, h⟩ := Option.bind_eq_some_iff.mp h
      exact .head (hR a t w w₁ ⟨hok.1, resp, Machine.runs_of_simulate _ hs⟩ hok.2) (ih h)
    · cases h

/-- The right password, and then some wrong codes under the challenge it gave. -/
def wrongCodes (n : Nat) : List (Time × Attempt) :=
  (0, .login anonymousRequest (some ⟨"admin", "correct horse"⟩)) ::
    List.replicate n (0, .loginTOTP { anonymousRequest with cookies := [(challengeCookie, "v1:x")] }
      (some ⟨"B", ""⟩))

/-- In every sequence of attempts, handled one at a time and none of them with the
challenge of a locked user: an attempt at a time before a lock runs out checks no
second factor of that user and creates no session for them, and the wrong guesses
at an enrolled user's credentials are bounded. -/
theorem lockout_covers_both_factors {w₀ : World} (hkey : w₀.db.Keyed) (htrace : w₀.trace = [])
    (hrun : ReflTransGen (Attempted P cfg) w₀ w) :
    (∀ a t w', Handles P cfg a t w w' → Heeds t w a → ∀ uid lockedAt expiry,
      (lockedAt, Event.locked uid expiry) ∈ w.trace → t < expiry →
        signIns uid w'.trace = signIns uid w.trace) ∧
    (∀ u ∈ w.db.users, u.confirmed → BoundsGuesses u.id w.trace) := by
  have hw : Watched w := (watched_of_trace_nil hkey htrace).steps hrun
  constructor
  · intro a t w' hhandles hheeds uid lockedAt expiry hmem hlt
    have hlock : expiry ∈ (account uid w).locks :=
      mem_filterMap.mpr ⟨_, hmem, by simp [Event.lock]⟩
    have hroster : (uid, true) ∈ w.db.roster := by
      by_contra hun
      rw [hw.others uid hun] at hlock
      cases hlock
    refine (hhandles.effect hw.keyed hheeds).signIns fun u hu hopen => ?_
    -- the lock has not run out, so the row still holds one at least as late
    rcases (hw.policy uid hroster).locked expiry hlock with hle | ⟨later, hlater, hle⟩
    · exact absurd (hle.trans hhandles.1) (not_le.mpr hlt)
    have hfind : w.db.findUser uid = some u := hu
    have hrow : later ∈ u.lockedUntil := by
      simpa [account, hfind] using hlater
    exact absurd (hle.trans (hopen later hrow)) (not_le.mpr hlt)
  · intro u hu hconf
    have hroster : (u.id, true) ∈ w.db.roster := mem_map.mpr ⟨u, hu, by rw [hconf]⟩
    exact boundsGuesses_of_paced (hw.policy u.id hroster).paced

/-- Five wrong codes lock the account, and the bound is met exactly. -/
theorem five_wrong_codes_within_bound :
    ∃ w, sampleAttempts (fun t w a => Heeds t w a) (wrongCodes 5) enrolledWorld = some w ∧
      (0, Event.locked 1 lockoutWindow) ∈ w.trace ∧
      (w.trace.filter fun e => e.2.guess 1 = some false).length = 5 ∧
      ∀ u ∈ w.db.users, u.confirmed → BoundsGuesses u.id w.trace := by
  have hsim : (sampleAttempts (fun t w a => Heeds t w a) (wrongCodes 5) enrolledWorld).any
      (fun w => (0, Event.locked 1 lockoutWindow) ∈ w.trace ∧
        (w.trace.filter fun e => e.2.guess 1 = some false).length = 5) := by decide +kernel
  obtain ⟨w, hw, hfacts⟩ := (Option.any_eq_true _ _).mp hsim
  obtain ⟨hlock, hcount⟩ := of_decide_eq_true hfacts
  have hkey : enrolledWorld.db.Keyed := nodup_singleton _
  have hrun : ReflTransGen (Attempted samplePrimitives sampleConfig) enrolledWorld w :=
    steps_sampleAttempts (fun a t _ _ hh hok => ⟨a, t, hh, of_decide_eq_true hok⟩) hw
  exact ⟨w, hw, hlock, hcount, (lockout_covers_both_factors hkey rfl hrun).2⟩

/-- After five wrong codes the account is locked for fifteen minutes. A sixth code,
sent within the same second, is evaluated all the same, and the right code a second
later creates a session. -/
theorem session_while_locked :
    ∃ w w', ReflTransGen (fun w w' => ∃ a t, Handles samplePrimitives sampleConfig a t w w')
        enrolledWorld w ∧
      (0, Event.locked 1 lockoutWindow) ∈ w.trace ∧ ¬ BoundsGuesses 1 w.trace ∧
      second < lockoutWindow ∧ (∃ a, Handles samplePrimitives sampleConfig a second w w') ∧
      signIns 1 w'.trace =
        (second, .session 1) :: (second, .secondFactor 1 true) :: signIns 1 w.trace := by
  have hsim : (sampleAttempts (fun _ _ _ => true) (wrongCodes 6) enrolledWorld).any (fun w =>
      (sampleAttempts (fun _ _ _ => true)
        [(second, .loginTOTP { anonymousRequest with cookies := [(challengeCookie, "v1:x")] }
          (some ⟨"A", ""⟩))] w).any fun w' =>
        (0, Event.locked 1 lockoutWindow) ∈ w.trace ∧
        (∀ e ∈ w.trace, e.2.guess 1 ≠ some true) ∧
        (w.trace.filter fun e =>
          e.2.guess 1 = some false ∧ 0 ≤ e.1 ∧ e.1 < 0 + lockoutWindow).length = 6 ∧
        signIns 1 w'.trace =
          (second, .session 1) :: (second, .secondFactor 1 true) :: signIns 1 w.trace) := by
    decide +kernel
  obtain ⟨w, hw, hsim⟩ := (Option.any_eq_true _ _).mp hsim
  obtain ⟨w', hw', hfacts⟩ := (Option.any_eq_true _ _).mp hsim
  obtain ⟨hlock, hseg, hcount, hsign⟩ := of_decide_eq_true hfacts
  refine ⟨w, w', steps_sampleAttempts (fun a t _ _ hh _ => ⟨a, t, hh⟩) hw, hlock,
    fun hbound => ?_, by decide, ?_, hsign⟩
  · have hle := hbound [] w.trace [] 0 (by simp) hseg
    rw [hcount] at hle
    exact absurd hle (by decide)
  rw [sampleAttempts] at hw'
  split at hw'
  · rename_i hok
    obtain ⟨⟨resp, w₁⟩, hsim, hdone⟩ := Option.bind_eq_some_iff.mp hw'
    cases hdone
    exact ⟨_, hok.1, resp, Machine.runs_of_simulate _ hsim⟩
  · cases hw'

end Orkano.Dashboard
