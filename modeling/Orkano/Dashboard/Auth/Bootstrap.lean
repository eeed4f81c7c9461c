import Mathlib.Data.List.Nodup
import Orkano.Dashboard.Auth.Accounts
import Orkano.Dashboard.Auth.Calls

/-!
Safety of bootstrap under any interleaving of requests, with queries that may fail before or
after they took effect. The three handlers that create sessions do so for a user who is
confirmed, linked, or gone for good.
-/
namespace Orkano.Dashboard

open Interleave Program List

variable {P : Primitives} {cfg : ServerConfig} {r : Request} {faulty : Bool} {t : ℕ} {w w' : World}
  {α β : Type}

/-- Between two calls of one request the others may evolve the accounts. -/
def accounts : Discipline World ℕ where
  inv w := w.db.Safe
  evolves w w' := w.db.Evolves w'.db
  rely _ w w' := w.db.Evolves w'.db
  evolves_refl w := .refl w.db
  evolves_trans := Db.Evolves.trans
  rely_refl _ w := .refl w.db
  rely_trans _ := Db.Evolves.trans

def MintsNothing : Call → Prop
  | .store (.createSession _ _ _) => False
  | _ => True

theorem mintsNothing_of_quiet {c : Call} (h : Quiet c) : MintsNothing c := by
  unfold MintsNothing
  split
  · exact h
  · trivial

variable {q : StoreCall}

/-- A query that creates no session keeps the accounts safe. -/
theorem keeps_run (hq : MintsNothing (.store q)) (now : Time) (db : Db) :
    db.Keeps (q.run P now db).2 := by
  cases q with
  | createSession _ _ _ => exact hq.elim
  | createAdmin arg => exact Db.keeps_createAdmin
  | createOIDCUser username issuer subject => exact Db.keeps_createOIDCUser
  | confirmUserTOTP id => exact Db.keeps_confirmUserTOTP now
  | incrementFailedLogins id =>
    simp only [StoreCall.run, Db.incrementFailedLogins]
    split
    · exact Db.keeps_updateUser_of_confirmed_eq (fun _ => ⟨rfl, rfl, rfl, rfl, rfl⟩) fun _ => rfl
    · exact .refl db
  | lockUser | resetFailedLogins =>
    exact Db.keeps_updateUser_of_confirmed_eq (fun _ => ⟨rfl, rfl, rfl, rfl, rfl⟩) fun _ => rfl
  | deleteSession tokenHash =>
    exact Db.keeps_sessions fun s hs => ⟨s, (mem_filter.mp hs).1, rfl⟩
  | markSessionReauth tokenHash =>
    refine Db.keeps_sessions fun s hs => ?_
    obtain ⟨s', hs', rfl⟩ := mem_map.mp hs
    exact ⟨s', hs', by split <;> rfl⟩
  | consumeRecoveryCode userId codeHash =>
    simp only [StoreCall.run, Db.consumeRecoveryCode]
    split
    · exact Db.SameAccounts.keeps ⟨rfl, rfl, rfl⟩
    · exact .refl db
  | appendAuditEntry e =>
    simp only [StoreCall.run, Db.appendAuditEntry]
    split
    · exact Db.SameAccounts.keeps ⟨rfl, rfl, rfl⟩
    · exact .refl db
  | upsertSetting key value =>
    simp only [StoreCall.run, Db.upsertSetting]
    split
    · exact Db.SameAccounts.keeps ⟨rfl, rfl, rfl⟩
    · exact .refl db
  | countConfirmedAdmins | getUserByUsername _ | getUserByID _ | getUserByOIDC _ _ | getSession _
  | touchSession _ => exact .refl db

theorem allowed_of_keeps (h : w.db.Keeps w'.db) (hi : w.db.Safe) : Allowed accounts t w w' :=
  ⟨(h hi).1, (h hi).2, fun _ _ => (h hi).2⟩

theorem allowed_of_store {x : Except DbError q.Row} (hk : ∀ now, w.db.Keeps (q.run P now w.db).2)
    (hi : w.db.Safe) (hx : (machine P faulty).exec (.store q) w x w') :
    Allowed accounts t w w' := by
  refine allowed_of_keeps ?_ hi
  obtain ⟨now, ⟨-, hdb⟩ | ⟨-, hdb | hdb⟩⟩ := exec_store hx <;> rw [hdb]
  · exact hk now
  · exact .refl w.db
  · exact hk now

theorem allowed_of_exec {c : Call} {x : c.Reply} (hc : MintsNothing c) (hi : w.db.Safe)
    (hx : (machine P faulty).exec c w x w') : Allowed accounts t w w' := by
  rcases (exec_frame hx).1 with hdb | ⟨q, rfl⟩
  · exact allowed_of_keeps (hdb ▸ .refl w.db) hi
  · exact allowed_of_store (fun now => keeps_run hc now w.db) hi hx

section Handlers

/-- A program in thread `t` of the server, with a condition on how it ends. -/
abbrev SafeIn (P : Primitives) (cfg : ServerConfig) (faulty : Bool) (t : ℕ)
    (post : α → World → Prop) (p : Prog α) (w : World) : Prop :=
  Safe (server P cfg faulty).exec accounts t post p w

/-- A fact about the accounts that survives whatever anyone does. -/
def Stable (R : Db → Prop) : Prop := ∀ db db', R db → db.Evolves db' → R db'

variable {p : Prog α} {R : Db → Prop}

theorem safe_only (hR : Stable R) (hp : p.Only MintsNothing) (hw : R w.db) :
    SafeIn P cfg faulty t (fun _ w' => R w'.db) p w :=
  safe_of_only (fun _ _ _ _ hc hi _ hx => allowed_of_exec hc hi hx) (fun _ _ => hR _ _)
    (fun _ _ => hR _ _) hp hw

theorem safe_only_bind {f : α → Prog β} {post : β → World → Prop} (hR : Stable R)
    (hp : p.Only MintsNothing) (hw : R w.db)
    (hf : ∀ a w', R w'.db → SafeIn P cfg faulty t post (f a) w') :
    SafeIn P cfg faulty t post (p >>= f) w :=
  Safe.bind ((safe_only hR hp hw).mono hf)

theorem safe_trivial (hp : p.Only MintsNothing) : SafeIn P cfg faulty t (fun _ _ => True) p w :=
  safe_only (R := fun _ => True) (fun _ _ h _ => h) hp trivial

theorem stable_true : Stable fun _ => True := fun _ _ h _ => h

theorem stable_ready (id : Int) : Stable (Db.Ready id) := fun _ _ h he => h.evolves he

theorem stable_drawn (id : Int) : Stable fun db => id < db.nextUserId :=
  fun _ _ h he => lt_of_lt_of_le h he.next

private theorem quiet {c : Call} (h : Quiet c) : (call c).Only MintsNothing :=
  only_of_call (mintsNothing_of_quiet h)

private theorem audit_only (actor action target outcome : String) :
    (audit r actor action target outcome).Only MintsNothing :=
  only_audit (fun _ => trivial) actor action target outcome

private theorem safe_audited {actor action target outcome : String} {resp : Response} :
    SafeIn P cfg faulty t (fun _ _ => True)
      (audit r actor action target outcome >>= fun _ => pure resp) w :=
  safe_trivial (only_bind (audit_only _ _ _ _) fun _ => trivial)

theorem safe_mintSession {userId : Int} (h : Db.Ready userId w.db) :
    SafeIn P cfg faulty t (fun _ _ => True) (mintSession userId) w := by
  refine safe_only_bind (stable_ready userId) (quiet trivial) h fun token w' h => ?_
  split
  · trivial
  refine safe_only_bind (stable_ready userId) (quiet trivial) h fun now w' h => ?_
  intro w₁ he hi x w₂ hx
  refine ⟨allowed_of_store (fun now => ?_) hi hx, ?_⟩
  · exact Db.keeps_createSession (h.evolves he)
  · cases x <;> trivial

theorem safe_finishSignIn {user : User} {action : String} (h : Db.Ready user.id w.db) :
    SafeIn P cfg faulty t (fun _ _ => True) (finishSignIn r user action) w := by
  refine Safe.bind ((safe_mintSession h).mono fun raw w' _ => ?_)
  split
  · trivial
  · exact safe_audited

section Rows

variable {w₁ w₂ : World}

theorem safe_query {q : StoreCall} {f : Except DbError q.Row → Prog β} {R : Db → Prop}
    {post : β → World → Prop} (hq : MintsNothing (.store q)) (hR : Stable R) (hw : R w.db)
    (hf : ∀ w₁ x w₂, R w₁.db → w₁.db.Safe → (machine P faulty).exec (.store q) w₁ x w₂ →
      SafeIn P cfg faulty t post (f x) w₂) :
    SafeIn P cfg faulty t post (storeCall q >>= f) w := by
  intro w₁ he hi x w₂ hx
  exact ⟨allowed_of_exec hq hi hx, hf w₁ x w₂ (hR _ _ hw he) hi hx⟩

variable {user : User}

theorem mem_of_getUserByID {id : Int}
    (hx : (machine P faulty).exec (.store (.getUserByID id)) w₁ (.ok user) w₂) :
    w₂.db = w₁.db ∧ user ∈ w₂.db.users := by
  obtain ⟨now, ⟨hr, hdb⟩ | ⟨hr, -⟩⟩ := exec_store hx
  · refine ⟨hdb, ?_⟩
    simp only [StoreCall.run, Db.getUserByID] at hr hdb
    rw [hdb]
    cases hf : w₁.db.findUser id with
    | none => simp [hf, Db.orNoRows] at hr
    | some u =>
      simp only [hf, Db.orNoRows, Except.ok.injEq] at hr
      exact hr ▸ (Db.mem_of_findUser hf).1
  · cases hr

variable {issuer subject : String}

theorem mem_of_getUserByOIDC
    (hx : (machine P faulty).exec (.store (.getUserByOIDC issuer subject)) w₁ (.ok user) w₂) :
    w₂.db = w₁.db ∧ user ∈ w₂.db.users ∧ user.oidc = some (issuer, subject) := by
  obtain ⟨now, ⟨hr, hdb⟩ | ⟨hr, -⟩⟩ := exec_store hx
  · simp only [StoreCall.run, Db.getUserByOIDC] at hr hdb
    rw [hdb]
    generalize hf : w₁.db.users.find? _ = found at hr
    cases found with
    | none => cases hr
    | some u =>
      cases hr
      exact ⟨rfl, mem_of_find?_eq_some hf, by simpa using find?_some hf⟩
  · cases hr

theorem ready_of_getUserByOIDC
    (hx : (machine P faulty).exec (.store (.getUserByOIDC issuer subject)) w₁ (.ok user) w₂) :
    Db.Ready user.id w₂.db := by
  obtain ⟨-, hm, hl⟩ := mem_of_getUserByOIDC hx
  exact .inl ⟨user, hm, rfl, .inr (by simp [User.linked, hl])⟩

theorem ready_of_exec_createOIDCUser {username : Option String}
    (hx : (machine P faulty).exec (.store (.createOIDCUser username issuer subject)) w₁ (.ok user)
      w₂) : Db.Ready user.id w₂.db := by
  obtain ⟨now, ⟨hr, hdb⟩ | ⟨hr, -⟩⟩ := exec_store hx
  · rw [hdb]
    exact Db.ready_of_createOIDCUser hr.symm
  · cases hr

theorem ready_of_exec_confirmUserTOTP {id : Int} (hid : id < w₁.db.nextUserId)
    (hx : (machine P faulty).exec (.store (.confirmUserTOTP id)) w₁ (.ok ()) w₂) :
    Db.Ready id w₂.db := by
  obtain ⟨now, ⟨hr, hdb⟩ | ⟨hr, -⟩⟩ := exec_store hx
  · rw [hdb]
    exact Db.ready_of_confirmUserTOTP hid hr.symm
  · cases hr

end Rows

/-- A confirm reaches its session only behind a stamp that met no other confirmed row. -/
theorem safe_handleConfirmTOTP (body : Option CodeRequest) :
    SafeIn P cfg faulty t (fun _ _ => True) (handleConfirmTOTP r body) w := by
  unfold handleConfirmTOTP
  split
  · trivial
  refine safe_only_bind stable_true (only_readCookie (fun _ => trivial) trivial) trivial
    fun ch w _ => ?_
  split
  · trivial
  refine safe_query trivial stable_true trivial fun w₁ x w₂ _ hi hx => ?_
  cases x with
  | error e => exact safe_audited
  | ok user =>
    obtain ⟨hdb, hm⟩ := mem_of_getUserByID hx
    have hid : user.id < w₂.db.nextUserId := (hdb ▸ hi).drawn user hm
    dsimp only
    split
    · exact safe_audited
    refine safe_only_bind (stable_drawn user.id) (quiet trivial) hid fun secret w hid => ?_
    split
    · trivial
    refine safe_only_bind (stable_drawn user.id) (quiet trivial) hid fun ok w hid => ?_
    split
    · exact safe_audited
    refine safe_query trivial (stable_drawn user.id) hid fun w₁ x w₂ hid _ hx => ?_
    split
    · exact safe_audited
    · trivial
    · exact safe_finishSignIn (ready_of_exec_confirmUserTOTP hid hx)

/-- A second factor gives a session only to an account that may have one. -/
theorem safe_handleLoginTOTP (body : Option LoginTOTPRequest) :
    SafeIn P cfg faulty t (fun _ _ => True) (handleLoginTOTP P r body) w := by
  have hQ : ∀ c, Passive c → MintsNothing c := fun _ h => mintsNothing_of_quiet h.quiet
  unfold handleLoginTOTP
  split
  · trivial
  refine safe_only_bind stable_true (only_readCookie (fun _ => trivial) trivial) trivial fun ch w _ => ?_
  split
  · trivial
  refine safe_query trivial stable_true trivial fun w₁ x w₂ _ _ hx => ?_
  cases x with
  | error e => trivial
  | ok user =>
    dsimp only
    split
    · trivial
    rename_i hc
    have hr : Db.Ready user.id w₂.db :=
      .inl ⟨user, (mem_of_getUserByID hx).2, rfl, .inl (by simpa using hc)⟩
    refine safe_only_bind (stable_ready user.id) (only_secondFactorOK hQ _ _) hr
      fun ok w hr => ?_
    split
    · exact safe_trivial (only_bind (only_recordFailedLogin hQ _) fun _ =>
        only_bind (audit_only _ _ _ _) fun _ => trivial)
    · exact safe_only_bind (stable_ready user.id) (quiet trivial) hr
        fun _ w hr => safe_finishSignIn hr

/-- A user that the identity provider vouches for may have a session. -/
theorem safe_resolveOIDCUser (id : Identity) :
    SafeIn P cfg faulty t (fun x w => ∀ uid name, x = .ok (uid, name) → Db.Ready uid w.db)
      (resolveOIDCUser id) w := by
  refine safe_query trivial stable_true trivial fun w₁ x w₂ _ _ hx => ?_
  split
  · rintro _ _ ⟨⟩
    exact ready_of_getUserByOIDC hx
  · refine safe_query trivial stable_true trivial fun w₁ x w₂ _ _ hx => ?_
    split
    · rintro _ _ ⟨⟩
      exact ready_of_exec_createOIDCUser hx
    refine safe_query trivial stable_true trivial fun w₁ x w₂ _ _ hx => ?_
    split
    · rintro _ _ ⟨⟩
      exact ready_of_getUserByOIDC hx
    · rintro _ _ ⟨⟩
  · rintro _ _ ⟨⟩

theorem safe_completeOIDCLogin (id : Identity) (clear : Cookie) :
    SafeIn P cfg faulty t (fun _ _ => True) (completeOIDCLogin r id clear) w := by
  refine Safe.bind ((safe_resolveOIDCUser id).mono fun user w hr => ?_)
  split
  · exact safe_audited
  · refine Safe.bind ((safe_mintSession (hr _ _ rfl)).mono fun raw w _ => ?_)
    split <;> exact safe_audited

/-- The callback creates sessions only for such users. -/
theorem safe_handleOIDCCallback :
    SafeIn P cfg faulty t (fun _ _ => True) (handleOIDCCallback P cfg r) w := by
  have hQ : ∀ c, Passive c → MintsNothing c := fun _ h => mintsNothing_of_quiet h.quiet
  unfold handleOIDCCallback
  split
  · trivial
  refine safe_only_bind stable_true (only_readCookie (fun _ => trivial) trivial) trivial fun cookie w _ => ?_
  dsimp only
  split
  · exact safe_audited
  split
  · exact safe_audited
  split
  · exact safe_audited
  split
  · exact safe_audited
  refine safe_only_bind stable_true (quiet trivial) trivial fun id w _ => ?_
  split
  · exact safe_audited
  split
  · exact safe_audited
  split
  · exact safe_trivial (only_completeOIDCStepUp hQ (fun _ => trivial) _ _ _)
  · exact safe_completeOIDCLogin _ _

end Handlers

/-- Any number of requests at once keep the accounts safe. -/
theorem server_respects_accounts :
    (server P cfg faulty).Respects accounts (fun _ _ _ => True) where
  lasts := fun _ _ _ _ _ _ => trivial
  starts := by
    rintro t _ w ⟨r, route, rfl⟩ -
    have hQ : ∀ c, Passive c → MintsNothing c := fun _ h => mintsNothing_of_quiet h.quiet
    have hS : ∀ writer text, Wrote writer text → MintsNothing (.cipherSeal writer text) :=
      fun _ _ _ => trivial
    cases route with
    | confirmTOTP body => exact safe_handleConfirmTOTP body
    | loginTOTP body => exact safe_handleLoginTOTP body
    | oidcCallback => exact safe_handleOIDCCallback
    | status => exact safe_trivial (only_handleAuthStatus hQ)
    | redeem body => exact safe_trivial (only_handleRedeem hQ hS body)
    | login body => exact safe_trivial (only_handleLogin hQ hS body)
    | oidcLogin => exact safe_trivial (only_handleOIDCLogin hQ hS)
    | logout => exact safe_trivial (only_requireSession hQ fun user => only_handleLogout hQ user)
    | stepUp body =>
      exact safe_trivial (only_requireSession hQ fun user =>
        only_handleStepUp hQ (fun _ => trivial) user body)
    | githubManifest =>
      exact safe_trivial (only_requireSession hQ fun user => only_handleGitHubManifest hQ hS user)
    | githubCallback => exact safe_trivial (only_handleGitHubCallback hQ)
  env := fun _ h => h.elim
  restart := by
    rintro w _ hi rfl
    exact ⟨hi, .refl _⟩

theorem Db.Fresh.safe {db : Db} (h : db.Fresh) : db.Safe where
  drawn := by simp [h.users]
  distinct := by simp [h.users]
  single := by simp [h.users]
  owned := by simp [h.sessions]

/-- A safe database has one confirmed administrator at most. -/
theorem Db.Safe.countConfirmedAdmins_le_one {db : Db} (h : db.Safe) :
    db.countConfirmedAdmins ≤ 1 := by
  have hm : ∀ u ∈ db.confirmedUsers, u ∈ db.users ∧ u.confirmed := fun u hu =>
    ⟨(mem_filter.mp hu).1, (mem_filter.mp hu).2⟩
  have hi : (db.confirmedUsers.map User.id).Nodup :=
    h.distinct.sublist (filter_sublist.map User.id)
  unfold Db.countConfirmedAdmins
  match hl : db.confirmedUsers with
  | [] => simp
  | [_] => simp
  | u :: v :: _ =>
    -- two confirmed rows would share an id
    obtain ⟨hu, hcu⟩ := hm u (by simp [hl])
    obtain ⟨hv, hcv⟩ := hm v (by simp [hl])
    have hne : u.id ≠ v.id := by
      rw [hl] at hi
      simp only [map_cons, nodup_cons, mem_cons, not_or] at hi
      exact hi.1.1
    exact absurd (h.single u hu v hv hcu hcv) hne

/-- In every interleaving from a fresh store: at most one admin is confirmed; a
confirmed admin and a linked user keep their rows; every session belongs to such a
user; and with an admin confirmed, no other local user ever has a session. -/
theorem bootstrap_safe {w₀ : World} {c c' : Config dashboard World ℕ Response}
    (hfresh : w₀.db.Fresh) (hc : (server P cfg faulty).Steps (Config.idle w₀) c)
    (hc' : (server P cfg faulty).Steps c c') :
    c.shared.db.countConfirmedAdmins ≤ 1 ∧
    (∀ a ∈ c.shared.db.users, a.confirmed →
      ∃ a' ∈ c'.shared.db.users, a.SameAccount a' ∧ a'.confirmed) ∧
    (∀ s ∈ c.shared.db.sessions, ∃ u ∈ c.shared.db.users,
      u.id = s.userId ∧ (u.confirmed ∨ u.linked)) ∧
    (∀ u ∈ c.shared.db.users, u.linked → ∃ u' ∈ c'.shared.db.users, u.SameAccount u') ∧
    (∀ a ∈ c.shared.db.users, a.confirmed → ∀ s ∈ c'.shared.db.sessions,
      ∀ u ∈ c'.shared.db.users, u.id = s.userId → u.linked = false → u.id = a.id) := by
  have hM : (server P cfg faulty).Respects accounts (fun _ _ _ => True) :=
    server_respects_accounts
  obtain ⟨hgood, -⟩ := System.reachable_good hM (System.good_idle hfresh.safe) hc
  obtain ⟨hgood', hev⟩ := System.reachable_good hM hgood hc'
  have hsafe : c.shared.db.Safe := hgood.inv
  have hsafe' : c'.shared.db.Safe := hgood'.inv
  have hkept := Db.Evolves.kept hev
  refine ⟨hsafe.countConfirmedAdmins_le_one, ?_, hsafe.owned, ?_, ?_⟩
  · intro a ha hconf
    obtain ⟨a', ha', hb⟩ := hkept a ha (.inl hconf)
    exact ⟨a', ha', hb.account, hb.confirmed hconf⟩
  · intro u hu hlinked
    obtain ⟨u', hu', hb⟩ := hkept u hu (.inr hlinked)
    exact ⟨u', hu', hb.account⟩
  intro a ha hconf s hs u hu hid hlocal
  obtain ⟨a', ha', hb⟩ := hkept a ha (.inl hconf)
  obtain ⟨v, hv, hvid, hadm⟩ := hsafe'.owned s hs
  have huv : u = v := inj_on_of_nodup_map hsafe'.distinct hu hv (hid.trans hvid.symm)
  have hconf' : u.confirmed := by
    rcases huv ▸ hadm with h | h
    · exact h
    · rw [hlocal] at h
      cases h
  rw [hsafe'.single u hu a' ha' hconf' (hb.confirmed hconf), hb.account.id]

/-- The first admin redeems the token and confirms the code of the new seed. -/
def worldAfterEnrollment : World :=
  sampleServe 0 { anonymousRequest with cookies := [(challengeCookie, "v1:x")] }
    (.confirmTOTP (some ⟨"A"⟩))
    (sampleServe 0 anonymousRequest (.redeem (some ⟨"", "admin", "correct horse"⟩)) emptyWorld)

/-- Enrollment confirms the one admin, who has the one session. -/
theorem enrollment_confirms_one_admin :
    worldAfterEnrollment.db.countConfirmedAdmins = 1 ∧
    worldAfterEnrollment.db.sessions.map Session.userId = [1] ∧
    ∀ s ∈ worldAfterEnrollment.db.sessions, ∃ u ∈ worldAfterEnrollment.db.users,
      u.id = s.userId ∧ (u.confirmed ∨ u.linked) := by
  have hfresh : emptyWorld.db.Fresh := ⟨rfl, rfl⟩
  have hsteps : (server samplePrimitives sampleConfig false).Steps (Config.idle emptyWorld)
      (Config.idle worldAfterEnrollment) :=
    (steps_sampleServe _ _ _ _).trans (steps_sampleServe _ _ _ _)
  have hcount : worldAfterEnrollment.db.countConfirmedAdmins = 1 ∧
      worldAfterEnrollment.db.sessions.map Session.userId = [1] := by decide +kernel
  have hsafe := (bootstrap_safe hfresh hsteps .refl).2.2.1
  simp only [Config.idle] at hsafe
  exact ⟨hcount.1, hcount.2, hsafe⟩

end Orkano.Dashboard
