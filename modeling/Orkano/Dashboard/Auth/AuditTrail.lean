import Mathlib.Data.String.Basic
import Orkano.Dashboard.Auth.Calls

/-!
What the audit log keeps of the credential checks. Other requests may change the tables
between any two calls; only the rows of the request at hand are followed. A login names an
unknown user with whatever text the request has, and an entry the log refuses is dropped.
-/
namespace Orkano.Dashboard.AuditTrail

open Interleave Program List

/-- Every user has a name that the table admits. -/
def Schema (db : Db) : Prop := ∀ u ∈ db.users, Db.textBetween 1 254 u.username = true

def mayFail : Call → Bool
  | .store (.appendAuditEntry _) => false
  | _ => true

/-- One call of a request, in whatever state the others have left, with the rows that the
request has put into the audit log. -/
def served (P : Primitives) (c : Call) (rows : List AuditEntry) (x : c.Reply)
    (rows' : List AuditEntry) : Prop :=
  ∃ w w', Schema w.db ∧ (machine P (mayFail c)).exec c w x w' ∧
    ∃ new, w'.db.auditLog = w.db.auditLog ++ new ∧ rows' = rows ++ new

inductive Endpoint where
  | login (body : Option LoginRequest)
  | loginTOTP (body : Option LoginTOTPRequest)
  | redeem (body : Option RedeemRequest)

def Endpoint.handle (P : Primitives) (cfg : ServerConfig) (r : Request) : Endpoint → Prog Response
  | .login body => handleLogin cfg r body
  | .loginTOTP body => handleLoginTOTP P r body
  | .redeem body => handleRedeem P cfg r body

def Endpoint.action : Endpoint → String
  | .login _ => "auth.login"
  | .loginTOTP _ => "auth.login_totp"
  | .redeem _ => "bootstrap.redeem"

/-- The decision on the credential that a response tells. A request that could not be read,
has no challenge, or fails for an internal reason gets none. -/
def Endpoint.decision : Endpoint → Response → Option String
  | .login _, resp =>
    if resp.status = 200 then some "success"
    else if resp.status = 401 then some "failure"
    else if resp.status = 423 then some "locked"
    else none
  | .loginTOTP _, resp =>
    if resp.status = 200 then some "success"
    else if resp = writeJSONError 401 "invalid_credentials" [] then some "failure"
    else none
  | .redeem _, resp =>
    if resp.status = 200 then some "success"
    else if resp.status = 401 ∨ resp.status = 409 then some "failure"
    else none

/-- The log takes the name that a login gives. The name of a redemption is short enough when it
is looked at; it has no NUL, or the request goes no further than the checks of its body, or it
comes with the right token, and then the table of users refuses the name first. -/
def Endpoint.Recorded (P : Primitives) (cfg : ServerConfig) : Endpoint → Prop
  | .login (some req) => Db.textBetween 0 254 req.username = true
  | .redeem (some req) => '\x00' ∉ req.username.toList ∨ 254 < req.username.utf8ByteSize ∨
      validatePasswordPolicy req.password = false ∨ hashToken P req.token = cfg.bootstrapTokenHash
  | _ => True

section Silence

variable {P : Primitives} {rows rows' : List AuditEntry} {r : Request}

def Silent : Call → Prop
  | .store (.appendAuditEntry _) => False
  | _ => True

theorem auditLog_insertUser (lower : String → String) (db : Db) (mk : Int → User) :
    (db.insertUser lower mk).2.auditLog = db.auditLog := by
  unfold Db.insertUser
  split
  · rfl
  · dsimp only
    split <;> rfl

theorem auditLog_insertRecoveryCodes {userId : Int} {ha : List String} {db db' : Db}
    (h : ha.foldlM (fun d hash => d.insertRecoveryCode userId hash) db = .ok db') :
    db'.auditLog = db.auditLog := by
  induction ha generalizing db with
  | nil =>
    cases h
    rfl
  | cons hash ha ih =>
    rw [foldlM_cons] at h
    cases hi : db.insertRecoveryCode userId hash with
    | error e => simp [hi, bind, Except.bind] at h
    | ok db1 =>
      have hs : db1.auditLog = db.auditLog := by
        unfold Db.insertRecoveryCode at hi
        split at hi
        · cases hi
        · split at hi <;> cases hi
          rfl
      rw [hi] at h
      rw [ih h, hs]

theorem auditLog_createAdmin (lower : String → String) (db : Db) (arg : CreateAdminParams) :
    (db.createAdmin lower arg).2.auditLog = db.auditLog := by
  have hi : (db.deleteUnconfirmedUsers.insertUser lower arg.row).2.auditLog = db.auditLog :=
    auditLog_insertUser lower db.deleteUnconfirmedUsers arg.row
  unfold Db.createAdmin
  dsimp only
  split
  · rfl
  split
  · rfl
  rename_i hc
  rw [← hi]
  exact auditLog_insertRecoveryCodes hc

variable {q : StoreCall}

/-- Only the query for it adds to the log. -/
theorem auditLog_run (hq : Silent (.store q)) (now : Time) (db : Db) :
    (q.run P now db).2.auditLog = db.auditLog := by
  cases q with
  | appendAuditEntry e => exact hq.elim
  | createAdmin arg => exact auditLog_createAdmin P.lower db arg
  | createOIDCUser username issuer subject =>
    cases username with
    | none => rfl
    | some username =>
      simp only [StoreCall.run, Db.createOIDCUser]
      rw [auditLog_insertUser]
  | confirmUserTOTP id =>
    simp only [StoreCall.run, Db.confirmUserTOTP]
    split <;> rfl
  | incrementFailedLogins id =>
    simp only [StoreCall.run, Db.incrementFailedLogins]
    split <;> rfl
  | createSession tokenHash userId expiresAt =>
    simp only [StoreCall.run, Db.createSession]
    split_ifs <;> rfl
  | consumeRecoveryCode userId codeHash =>
    simp only [StoreCall.run, Db.consumeRecoveryCode]
    split_ifs <;> rfl
  | upsertSetting key value =>
    simp only [StoreCall.run, Db.upsertSetting]
    split_ifs <;> rfl
  | _ => rfl

variable {c : Call}

theorem auditLog_of_silent {x : c.Reply} {w w' : World} {faulty : Bool} (hc : Silent c)
    (h : (machine P faulty).exec c w x w') : w'.db.auditLog = w.db.auditLog := by
  rcases (exec_frame h).1 with hdb | ⟨q, rfl⟩
  · rw [hdb]
  obtain ⟨now, ⟨-, hdb⟩ | ⟨-, hdb | hdb⟩⟩ := exec_store h
  · rw [hdb, auditLog_run hc]
  · rw [hdb]
  · rw [hdb, auditLog_run hc]

theorem rows_of_silent {x : c.Reply} (h : served P c rows x rows') (hc : Silent c) :
    rows' = rows := by
  obtain ⟨w, w', -, he, new, hn, rfl⟩ := h
  rw [auditLog_of_silent hc he, self_eq_append_right] at hn
  rw [hn, append_nil]

theorem ensures_silent_call {α : Type} {next : c.Reply → Prog α} {Q : α → List AuditEntry → Prop}
    (hc : Silent c) (h : ∀ x, served P c rows x rows → Ensures (served P) (next x) rows Q) :
    Ensures (served P) (Program.call (I := dashboard) c next) rows Q := by
  rw [ensures_call]
  intro x rows' hx
  obtain rfl := rows_of_silent hx hc
  exact h x hx

theorem ensures_after_silent {α β : Type} {p : Prog α} {f : α → Prog β}
    {Q : β → List AuditEntry → Prop} (hp : p.Only Silent)
    (hf : ∀ a, Ensures (served P) (f a) rows Q) : Ensures (served P) (p >>= f) rows Q := by
  have hk : Ensures (served P) p rows fun _ rows' => rows' = rows := by
    refine ⟨fun a rows' h => ?_⟩
    exact Runs.of_only (R := fun s s' => s' = s) (fun _ => rfl) (fun h h' => h'.trans h)
      (fun c s x s' hc (hx : served P c s x s') => rows_of_silent hx hc) hp h
  refine hk.bind fun a rows' h => ?_
  rw [h]
  exact hf a

variable {p : User → Bool} {user : User}

theorem mem_of_orNoRows {db : Db} (h : Db.orNoRows (db.users.find? p) = .ok user) :
    user ∈ db.users := by
  cases hf : db.users.find? p with
  | none =>
    rw [hf] at h
    cases h
  | some u =>
    rw [hf] at h
    cases h
    exact mem_of_find?_eq_some hf

theorem textBetween_mono {lo hi lo' hi' : ℕ} {s : String} (h : Db.textBetween lo hi s = true)
    (hl : lo' ≤ lo) (hh : hi ≤ hi') : Db.textBetween lo' hi' s = true := by
  rw [Db.textBetween_iff] at h ⊢
  exact ⟨⟨hl.trans h.1.1, h.1.2.trans hh⟩, h.2⟩

theorem username_of_found {x : Except DbError q.Row} (h : served P (.store q) rows x rows')
    (hx : ∀ now db, x = (q.run P now db).1 → Db.orNoRows (db.users.find? p) = .ok user)
    (hok : x ≠ .error .other) : Db.textBetween 0 254 user.username = true := by
  obtain ⟨w, w', hs, hec, -⟩ := h
  obtain ⟨now, ⟨hr, -⟩ | ⟨he, -⟩⟩ := exec_store hec
  · have hu := hs user (mem_of_orNoRows (hx now w.db hr))
    exact textBetween_mono hu (Nat.zero_le 1) (Nat.le_refl 254)
  · exact absurd he hok

theorem username_of_getUserByUsername {username : String}
    (h : served P (.store (.getUserByUsername username)) rows (.ok user) rows') :
    Db.textBetween 0 254 user.username = true :=
  username_of_found h (fun _ _ hr => hr.symm) nofun

theorem username_of_getUserByID {id : Int}
    (h : served P (.store (.getUserByID id)) rows (.ok user) rows') :
    Db.textBetween 0 254 user.username = true :=
  username_of_found h (fun _ _ hr => hr.symm) nofun

theorem silent_recordFailedLogin (userId : Int) : (recordFailedLogin userId).Only Silent := by
  refine only_bind (only_of_call trivial) fun count => ?_
  split
  · trivial
  split
  · refine only_bind (only_of_call trivial) fun now => ?_
    exact only_bind (only_of_call trivial) fun _ => trivial
  · trivial

theorem silent_isLocked (lockedUntil : Option Time) :
    (handleLogin.isLocked lockedUntil).Only Silent := by
  cases lockedUntil with
  | none => trivial
  | some lockedUntil => exact only_bind (only_of_call trivial) fun _ => trivial

theorem silent_secondFactorOK (user : User) (req : LoginTOTPRequest) :
    (secondFactorOK P user req).Only Silent := by
  unfold secondFactorOK
  split
  · refine only_bind (only_of_call trivial) fun secret => ?_
    split
    · trivial
    · exact only_of_call trivial
  split
  · refine only_bind (only_of_call trivial) fun used => ?_
    split <;> trivial
  · trivial

/-- Enrolling adds nothing to the log; the handler does. -/
theorem silent_enrollAdmin (req : RedeemRequest) : (enrollAdmin req).Only Silent := by
  refine only_bind (only_of_call trivial) fun passwordHash => ?_
  split
  · trivial
  refine only_bind (only_of_call trivial) fun key => ?_
  split
  · trivial
  refine only_bind (only_of_call trivial) fun sealedSecret => ?_
  split
  · trivial
  refine only_bind (only_of_call trivial) fun codes => ?_
  split
  · trivial
  · refine only_bind (only_of_call trivial) fun user => ?_
    split <;> trivial

theorem silent_mintSession (userId : Int) : (mintSession userId).Only Silent := by
  refine only_bind (only_of_call trivial) fun token => ?_
  split
  · trivial
  refine only_bind (only_of_call trivial) fun now => ?_
  refine only_bind (only_of_call trivial) fun created => ?_
  split <;> trivial

theorem silent_setChallengeCookie (ch : Challenge) (ttl : Time) :
    (setChallengeCookie r ch ttl).Only Silent := only_sealCookie (fun _ => trivial) trivial

theorem silent_readChallenge (stage : String) : (readChallenge r stage).Only Silent :=
  only_readCookie (fun _ => trivial) trivial

end Silence

section Entries

variable {P : Primitives} {rows rows' : List AuditEntry} {r : Request}

def Fits (e : AuditEntry) : Prop :=
  (Db.textBetween 0 254 e.actor && Db.textBetween 0 100 e.action &&
    Db.textBetween 0 512 e.target && Db.textBetween 0 32 e.outcome) = true

theorem appendAuditEntry_of_fits {e : AuditEntry} (h : Fits e) (db : Db) :
    db.appendAuditEntry e = (.ok (), { db with auditLog := db.auditLog ++ [e] }) := if_pos h

theorem appendAuditEntry_of_not_fits {e : AuditEntry} (h : ¬Fits e) (db : Db) :
    db.appendAuditEntry e = (.error .other, db) := if_neg h

theorem served_append {e : AuditEntry} {x : Except DbError Unit}
    (h : served P (.store (.appendAuditEntry e)) rows x rows') (he : Fits e) :
    rows' = rows ++ [e] := by
  obtain ⟨w, w', -, hec, new, hn, rfl⟩ := h
  obtain ⟨now, -, hw⟩ := exec_store_sound (q := .appendAuditEntry e) hec
  have hl : w'.db.auditLog = w.db.auditLog ++ [e] := by
    rw [hw]
    simp only [StoreCall.event, StoreCall.run, appendAuditEntry_of_fits he]
  rw [hl, append_cancel_left_eq] at hn
  rw [hn]

/-- A decision comes with the one row that tells it. -/
def Told (endpoint : Endpoint) (resp : Response) (rows : List AuditEntry) : Prop :=
  ∀ outcome, endpoint.decision resp = some outcome →
    ∃ e, rows = [e] ∧ e.action = endpoint.action ∧ e.outcome = outcome

variable {endpoint : Endpoint} {resp : Response}

theorem textBetween_of_decision {outcome : String} (h : endpoint.decision resp = some outcome) :
    Db.textBetween 0 32 outcome = true := by
  have hk : outcome ∈ ["success", "failure", "locked"] := by
    cases endpoint <;> simp only [Endpoint.decision] at h <;> split_ifs at h <;> cases h <;> decide
  simp only [mem_cons, not_mem_nil, or_false] at hk
  rcases hk with rfl | rfl | rfl <;> decide

/-- The end of every branch with a decision: the entry, then the response. -/
theorem ensures_told {actor action target outcome : String}
    (hac : Db.textBetween 0 254 actor = true) (ht : Db.textBetween 0 254 target = true)
    (ha : action = endpoint.action)
    (hd : endpoint.decision resp = some outcome) :
    Ensures (served P) (audit r actor action target outcome >>= fun _ => pure resp) []
      (Told endpoint) := by
  subst ha
  have hn : Db.textBetween 0 254 (if actor = "" then "anonymous" else actor) = true := by
    split
    · decide
    · exact hac
  have ha : Db.textBetween 0 100 endpoint.action = true := by
    cases endpoint <;> simp only [Endpoint.action] <;> decide
  simp only [audit, auditDetail, storeCall, call, perform_bind, call_bind, done_bind, pure_eq,
    ensures_call, ensures_done]
  intro x rows' h outcome' hd'
  rw [hd] at hd'
  cases hd'
  have ho := textBetween_of_decision hd
  have ht := textBetween_mono ht (Nat.le_refl 0) (by decide : 254 ≤ 512)
  exact ⟨_, served_append h (by simp only [Fits, hn, ha, ht, ho, Bool.and_self]), rfl, rfl⟩

end Entries

section Handlers

variable {P : Primitives} {cfg : ServerConfig} {r : Request}

theorem length_le_utf8ByteSize (s : String) : s.length ≤ s.utf8ByteSize := by
  have hch : ∀ cs : List Char, cs.length ≤ String.utf8Len cs := by
    intro cs
    induction cs with
    | nil => exact Nat.le_refl 0
    | cons c cs ih =>
      have hc := c.utf8Size_pos
      simp only [length_cons, String.utf8Len_cons]
      omega
  have hb := String.utf8ByteSize_ofList s.toList
  rw [String.ofList_toList] at hb
  rw [hb, ← String.length_toList]
  exact hch s.toList

theorem told_of_none {endpoint : Endpoint} {resp : Response} {rows : List AuditEntry}
    (h : endpoint.decision resp = none) : Told endpoint resp rows := by
  intro outcome hd
  rw [h] at hd
  cases hd

/-- A login leaves the one row that tells its outcome, if the log takes the name. -/
theorem ensures_handleLogin {body : Option LoginRequest}
    (hb : (Endpoint.login body).Recorded P cfg) :
    Ensures (served P) (handleLogin cfg r body) [] (Told (.login body)) := by
  unfold handleLogin
  cases body with
  | none => exact ensures_done.mpr (told_of_none rfl)
  | some req =>
    simp only [storeCall, call, perform_bind]
    refine ensures_silent_call trivial fun found hf => ?_
    cases found with
    | error e =>
      exact ensures_silent_call trivial fun _ _ => ensures_told hb hb rfl rfl
    | ok user =>
      have hu := username_of_getUserByUsername hf
      dsimp only
      split
      · exact ensures_silent_call trivial fun _ _ => ensures_told hu hu rfl rfl
      refine ensures_after_silent (silent_isLocked _) fun locked => ?_
      split
      · exact ensures_told hu hu rfl rfl
      refine ensures_silent_call trivial fun pwOK _ => ?_
      split
      · split
        · refine ensures_after_silent (silent_recordFailedLogin _) fun _ => ?_
          exact ensures_told hu hu rfl rfl
        · exact ensures_told hu hu rfl rfl
      refine ensures_after_silent (silent_setChallengeCookie _ _) fun cookie => ?_
      cases cookie with
      | none => exact ensures_done.mpr (told_of_none rfl)
      | some cookie => exact ensures_told hu hu rfl rfl

variable {body : Option LoginTOTPRequest}

theorem decision_refused {status : ℕ} {code : String} (hs : status ≠ 200)
    (hc : code ≠ "invalid_credentials") :
    (Endpoint.loginTOTP body).decision (writeJSONError status code []) = none := by
  simp [Endpoint.decision, writeJSONError, writeJSON, hs, hc]

/-- A second factor leaves the one row that tells its outcome. -/
theorem ensures_handleLoginTOTP :
    Ensures (served P) (handleLoginTOTP P r body) [] (Told (.loginTOTP body)) := by
  unfold handleLoginTOTP
  cases body with
  | none => exact ensures_done.mpr (told_of_none (decision_refused (by decide) (by decide)))
  | some req =>
    refine ensures_after_silent (silent_readChallenge _) fun challenge => ?_
    cases challenge with
    | none => exact ensures_done.mpr (told_of_none (decision_refused (by decide) (by decide)))
    | some ch =>
      simp only [storeCall, call, perform_bind]
      refine ensures_silent_call trivial fun found hf => ?_
      cases found with
      | error e => exact ensures_done.mpr (told_of_none (decision_refused (by decide) (by decide)))
      | ok user =>
        have hu := username_of_getUserByID hf
        dsimp only
        split
        · exact ensures_done.mpr (told_of_none (decision_refused (by decide) (by decide)))
        refine ensures_after_silent (silent_secondFactorOK _ _) fun ok => ?_
        split
        · refine ensures_after_silent (silent_recordFailedLogin _) fun _ => ?_
          exact ensures_told hu hu rfl rfl
        refine ensures_silent_call trivial fun _ _ => ?_
        refine ensures_after_silent (silent_mintSession _) fun raw => ?_
        cases raw with
        | none => exact ensures_done.mpr (told_of_none rfl)
        | some raw => exact ensures_told hu hu rfl rfl

/-- The table of users takes no name with a NUL. -/
theorem createAdmin_refused (arg : CreateAdminParams) (hn : '\x00' ∈ arg.username.toList)
    (lower : String → String) (db : Db) : ∃ e, (db.createAdmin lower arg).1 = .error e := by
  have ht : Db.textBetween 1 254 arg.username = false := by
    rw [← Bool.not_eq_true, Db.textBetween_iff]
    exact fun h => h.2 hn
  have ha : ∀ db' : Db, ∀ id, db'.admitsUser lower (arg.row id) = .error .other := by
    intro db' id
    simp [Db.admitsUser, CreateAdminParams.row, ht]
  have hi : ∃ e, (db.deleteUnconfirmedUsers.insertUser lower arg.row).1 = .error e := by
    unfold Db.insertUser
    split
    · exact ⟨_, rfl⟩
    · exact ⟨.other, by simp only [ha]⟩
  obtain ⟨e, he⟩ := hi
  refine ⟨e, ?_⟩
  unfold Db.createAdmin
  dsimp only
  rw [he]

/-- So no administrator is enrolled under one. -/
theorem enrollAdmin_refused {req : RedeemRequest} (hn : '\x00' ∈ req.username.toList)
    {rows : List AuditEntry} :
    Ensures (served P) (enrollAdmin req) rows fun enrolled _ => enrolled = none := by
  simp only [enrollAdmin, storeCall, call, perform_bind, ensures_call]
  intro passwordHash rows₁ _
  cases passwordHash with
  | none => exact ensures_done.mpr rfl
  | some passwordHash =>
  simp only [ensures_call]
  intro key rows₂ _
  cases key with
  | none => exact ensures_done.mpr rfl
  | some key =>
  simp only [ensures_call]
  intro sealedSecret rows₃ _
  cases sealedSecret with
  | none => exact ensures_done.mpr rfl
  | some sealedSecret =>
  simp only [ensures_call]
  intro codes rows₄ _
  cases codes with
  | none => exact ensures_done.mpr rfl
  | some codes =>
  simp only [ensures_call]
  rintro created rows₅ ⟨w, w', -, hc, -⟩
  cases created with
  | error e => exact ensures_done.mpr rfl
  | ok user =>
    obtain ⟨now, ⟨hr, -⟩ | ⟨hr, -⟩⟩ := exec_store hc
    · obtain ⟨e, he⟩ := createAdmin_refused
        ⟨req.username, passwordHash, sealedSecret, codes.2⟩ hn P.lower w.db
      exact nomatch hr.trans he
    · cases hr

/-- A redemption leaves the one row that tells its outcome. -/
theorem ensures_handleRedeem {body : Option RedeemRequest}
    (hb : (Endpoint.redeem body).Recorded P cfg) :
    Ensures (served P) (handleRedeem P cfg r body) [] (Told (.redeem body)) := by
  unfold handleRedeem
  cases body with
  | none => exact ensures_done.mpr (told_of_none rfl)
  | some req =>
    simp only [storeCall, call, perform_bind]
    refine ensures_silent_call trivial fun count _ => ?_
    cases count with
    | error e => exact ensures_done.mpr (told_of_none rfl)
    | ok n =>
      dsimp only
      split
      · exact ensures_told (by decide) (by decide) rfl rfl
      split
      · exact ensures_done.mpr (told_of_none rfl)
      rename_i hn
      simp only [Bool.or_eq_true, decide_eq_true_eq, not_or, not_lt] at hn
      split
      · exact ensures_done.mpr (told_of_none rfl)
      rename_i hp
      by_cases hnul : '\x00' ∈ req.username.toList
      · -- only the right token is left, and no user is made
        rw [if_neg]
        · refine (enrollAdmin_refused hnul).bind fun enrolled rows he => ?_
          subst he
          exact ensures_done.mpr (told_of_none rfl)
        · rcases hb with h | h | h | h
          · exact absurd hnul h
          · exact absurd hn.2 h.not_ge
          · simp [h] at hp
          · exact not_not.mpr h
      have hl : Db.textBetween 0 254 req.username = true := Db.textBetween_iff.mpr
        ⟨⟨Nat.zero_le _, (length_le_utf8ByteSize req.username).trans hn.2⟩, hnul⟩
      split
      · exact ensures_told (by decide) hl rfl rfl
      refine ensures_after_silent (silent_enrollAdmin _) fun enrolled => ?_
      cases enrolled with
      | none => exact ensures_done.mpr (told_of_none rfl)
      | some admin =>
        refine ensures_after_silent (silent_setChallengeCookie _ _) fun cookie => ?_
        cases cookie with
        | none => exact ensures_done.mpr (told_of_none rfl)
        | some cookie => exact ensures_told hl hl rfl rfl

end Handlers

section Unrecorded

variable {P : Primitives} {cfg : ServerConfig} {r : Request} {rows : List AuditEntry}

theorem served_at_empty {c : Call} {x : c.Reply} (k : c.Choice)
    (h : answer P (mayFail c) c k emptyWorld = some (x, emptyWorld)) : served P c rows x rows :=
  ⟨emptyWorld, emptyWorld, by simp [Schema, emptyWorld], ⟨k, h⟩, [], by simp, by simp⟩

variable {e : AuditEntry}

theorem served_refused (h : ¬Fits e) :
    served P (.store (.appendAuditEntry e)) rows (.error .other) rows := by
  refine served_at_empty ⟨0, none⟩ ?_
  simp only [answer, StoreCall.perform, StoreCall.run, appendAuditEntry_of_not_fits h]
  rfl

theorem served_stored (h : Fits e) :
    served P (.store (.appendAuditEntry e)) rows (.ok ()) (rows ++ [e]) := by
  refine ⟨emptyWorld, { emptyWorld with db := { emptyWorld.db with auditLog := [e] } },
    by simp [Schema, emptyWorld], ⟨⟨0, none⟩, ?_⟩, [e], rfl, rfl⟩
  simp only [machine, answer, StoreCall.perform, StoreCall.run, appendAuditEntry_of_fits h]
  rfl

def failureEntry (r : Request) (actor action target : String) : AuditEntry where
  actor := if actor = "" then "anonymous" else actor
  action := action
  target := target
  outcome := "failure"
  detail := Json.marshal
    ([("ip", Json.Scalar.string r.clientIP)].mergeSort fun a b => a.1 ≤ b.1)

theorem failureEntry_actor {actor action target : String} (h : actor ≠ "") :
    (failureEntry r actor action target).actor = actor := if_neg h

/-- A login under a name that no user has. -/
theorem runs_login {req : LoginRequest} {x : Except DbError Unit}
    (ha : served P (.store (.appendAuditEntry
      (failureEntry r req.username "auth.login" req.username))) [] x rows) :
    Runs (served P) (handleLogin cfg r (some req)) []
      (writeJSONError 401 "invalid_credentials" []) rows := by
  have hf : served P (.store (.getUserByUsername req.username)) [] (.error .noRows) [] :=
    served_at_empty ⟨0, none⟩ rfl
  have hv : served P (.verifyPassword none cfg.dummyPasswordHash req.password) [] _ [] :=
    served_at_empty () rfl
  exact .call hf (.call hv (.call ha .done))

/-- A redemption with a wrong token. -/
theorem runs_redeem {req : RedeemRequest} {x : Except DbError Unit}
    (hne : req.username ≠ "") (hl : req.username.utf8ByteSize ≤ 254)
    (hp : validatePasswordPolicy req.password = true)
    (ht : hashToken P req.token ≠ cfg.bootstrapTokenHash)
    (ha : served P (.store (.appendAuditEntry
      (failureEntry r "anonymous" "bootstrap.redeem" req.username))) [] x rows) :
    Runs (served P) (handleRedeem P cfg r (some req)) []
      (writeJSONError 401 "invalid_token" []) rows := by
  have hc : served P (.store .countConfirmedAdmins) [] (.ok 0) [] :=
    served_at_empty ⟨0, none⟩ rfl
  refine .call hc ?_
  simp only [gt_iff_lt, if_false, hne, decide_false, Bool.false_or, hl.not_gt, hp, Bool.not_true,
    Bool.false_eq_true, if_pos ht]
  exact .call ha .done

/-- Outside the condition a run decides on the credential and leaves no row. -/
theorem recorded_of_told {endpoint : Endpoint}
    (h : ∀ resp rows, Runs (served P) (endpoint.handle P cfg r) [] resp rows →
      Told endpoint resp rows) : endpoint.Recorded P cfg := by
  have hempty : ∀ {resp : Response}, Runs (served P) (endpoint.handle P cfg r) [] resp [] →
      endpoint.decision resp ≠ some "failure" := by
    intro resp hruns hd
    obtain ⟨e, he, -⟩ := h resp [] hruns "failure" hd
    cases he
  by_contra hb
  cases endpoint with
  | loginTOTP body => exact hb trivial
  | login body =>
    cases body with
    | none => exact hb trivial
    | some req =>
      have hne : req.username ≠ "" := by
        intro he
        simp [Endpoint.Recorded, he, Db.textBetween] at hb
      refine hempty (runs_login (served_refused ?_)) rfl
      simp only [Fits, failureEntry_actor hne, Bool.and_eq_true]
      exact fun hf => hb hf.1.1.1
  | redeem body =>
    cases body with
    | none => exact hb trivial
    | some req =>
      simp only [Endpoint.Recorded, not_or, not_not, not_lt, Bool.not_eq_false] at hb
      obtain ⟨hn, hl, hp, ht⟩ := hb
      have hne : req.username ≠ "" := by
        rintro he
        simp [he] at hn
      refine hempty (runs_redeem hne hl hp ht (served_refused ?_)) rfl
      simp only [Fits, failureEntry, Bool.and_eq_true, Db.textBetween_iff]
      exact fun hf => hf.1.2.2 hn

end Unrecorded

/-- Every decision on a credential leaves one row with its outcome, if and only if the log takes
the name that the request gives where it is written down. -/
theorem credential_decision_audited (P : Primitives) (cfg : ServerConfig) (r : Request)
    (endpoint : Endpoint) :
    (∀ resp rows, Runs (served P) (endpoint.handle P cfg r) [] resp rows →
      ∀ outcome, endpoint.decision resp = some outcome →
        ∃ e, rows = [e] ∧ e.action = endpoint.action ∧ e.outcome = outcome) ↔
      endpoint.Recorded P cfg := by
  refine ⟨recorded_of_told, fun hb => ?_⟩
  cases endpoint with
  | login body => exact (ensures_handleLogin hb).post
  | loginTOTP body => exact ensures_handleLoginTOTP.post
  | redeem body => exact (ensures_handleRedeem hb).post

def sampleLogin (username : String) : LoginRequest := ⟨username, "secret"⟩

def longName : String := String.ofList (List.replicate 255 'a')

/-- A failed login under a name of 255 characters leaves no trace. -/
theorem long_login_unaudited :
    ∃ resp, Runs (served samplePrimitives)
        (handleLogin sampleConfig anonymousRequest (some (sampleLogin longName))) [] resp [] ∧
      (Endpoint.login (some (sampleLogin longName))).decision resp = some "failure" := by
  refine ⟨_, runs_login (served_refused ?_), rfl⟩
  have hlength : longName.length = 255 := String.length_ofList.trans length_replicate
  have hne : longName ≠ "" := by
    intro he
    simp [he] at hlength
  simp only [Fits, sampleLogin, failureEntry_actor hne, Bool.and_eq_true, Db.textBetween_iff]
  omega

/-- One under a short name leaves its row. -/
theorem short_login_audited :
    ∃ resp rows, Runs (served samplePrimitives)
        (handleLogin sampleConfig anonymousRequest (some (sampleLogin "eve"))) [] resp rows ∧
      ∃ e, rows = [e] ∧ e.action = "auth.login" ∧ e.outcome = "failure" := by
  have hrecorded : (Endpoint.login (some (sampleLogin "eve"))).Recorded samplePrimitives
      sampleConfig := by
    change Db.textBetween 0 254 "eve" = true
    decide
  have hfits : Fits (failureEntry anonymousRequest "eve" "auth.login" "eve") := by
    unfold Fits
    decide +kernel
  have hruns : Runs (served samplePrimitives)
      (handleLogin sampleConfig anonymousRequest (some (sampleLogin "eve"))) []
      (writeJSONError 401 "invalid_credentials" []) _ := runs_login (served_stored hfits)
  have htold := (credential_decision_audited samplePrimitives sampleConfig anonymousRequest
    (.login (some (sampleLogin "eve")))).mpr hrecorded
  exact ⟨_, _, hruns, htold _ _ hruns _ rfl⟩

end Orkano.Dashboard.AuditTrail
