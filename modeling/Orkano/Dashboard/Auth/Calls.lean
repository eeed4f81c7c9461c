import Orkano.Dashboard.Auth.Routes

/-!
Which calls each handler can come to, for an arbitrary property of calls. Four kinds of call
are kept apart: sealing, creating a session, adding a user of the identity provider, and
marking a session as re-authenticated.
-/
namespace Orkano.Dashboard

open Interleave Program

def Wrote : Writer → String → Prop
  | .challenge stage, text => ∃ ch : Challenge, ch.stage = stage ∧ text = ch.marshal
  | .oidc, text => ∃ flow : OIDCFlow, text = flow.marshal
  | .github, text => ∃ flow : GitHubFlow, text = flow.marshal
  | .totpSeed, text => text.toList.all isBase32

def Quiet : Call → Prop
  | .cipherSeal _ _ => False
  | .store (.createSession _ _ _) => False
  | _ => True

/-- Nor adds a user of the identity provider, nor marks a session. -/
def Passive : Call → Prop
  | .store (.createOIDCUser _ _ _) => False
  | .store (.markSessionReauth _) => False
  | c => Quiet c

theorem Passive.quiet {c : Call} (h : Passive c) : Quiet c := by
  unfold Passive at h
  split at h
  · exact h.elim
  · exact h.elim
  · exact h

variable {P : Primitives} {cfg : ServerConfig} {r : Request} {Q : Call → Prop}

section Leaves

theorem only_of_call {c : Call} (hc : Q c) : (call c).Only Q := ⟨hc, fun _ => trivial⟩

theorem only_auditDetail (hQ : ∀ e, Q (.store (.appendAuditEntry e)))
    (actor action target outcome : String) (extra) :
    (auditDetail r actor action target outcome extra).Only Q :=
  only_bind (only_of_call (hQ _)) fun _ => trivial

theorem only_audit (hQ : ∀ e, Q (.store (.appendAuditEntry e)))
    (actor action target outcome : String) : (audit r actor action target outcome).Only Q :=
  only_auditDetail hQ actor action target outcome []

variable {name : String}

theorem only_readCookie {α : Type} {decode : String → Option α} {own : α → Bool}
    {expires : α → Int64} (ho : ∀ sealed, Q (.cipherOpen sealed)) (hn : Q .now) :
    (readCookie r name decode own expires).Only Q := by
  unfold readCookie
  split
  · trivial
  refine only_bind (only_of_call (ho _)) fun plain => ?_
  split
  · trivial
  split
  · trivial
  split
  · trivial
  · exact only_bind (only_of_call hn) fun _ => trivial

theorem only_sealCookie {writer : Writer} {sameSite : SameSite} {ttl : Time}
    {payload : Int64 → String} (hs : ∀ exp, Q (.cipherSeal writer (payload exp))) (hn : Q .now) :
    (sealCookie r writer sameSite name ttl payload).Only Q :=
  only_bind (only_of_call hn) fun _ => only_bind (only_of_call (hs _)) fun _ => trivial

end Leaves

section Passive

variable (hQ : ∀ c, Passive c → Q c)
include hQ

private theorem passive_call {c : Call} (hc : Passive c) : (call c).Only Q := only_of_call (hQ c hc)

private theorem passive_audit (actor action target outcome : String) :
    (audit r actor action target outcome).Only Q :=
  only_audit (fun _ => hQ _ trivial) actor action target outcome

private theorem passive_audited {α : Type} {a : α} {actor action target outcome : String} :
    (audit r actor action target outcome >>= fun _ => pure a).Only Q :=
  only_bind (passive_audit hQ ..) fun _ => trivial

private theorem passive_readCookie {α : Type} {name : String} {decode : String → Option α}
    {own : α → Bool} {expires : α → Int64} : (readCookie r name decode own expires).Only Q :=
  only_readCookie (fun _ => hQ _ trivial) (hQ _ trivial)

theorem only_resolveSession : (resolveSession P r).Only Q := by
  unfold resolveSession
  split
  · trivial
  refine only_bind (passive_call hQ trivial) fun sess => ?_
  split
  · trivial
  refine only_bind (passive_call hQ trivial) fun user => ?_
  split
  · trivial
  split
  · trivial
  · exact only_bind (passive_call hQ trivial) fun _ => trivial

theorem only_requireSession {next : SessionUser → Prog Response} (hn : ∀ user, (next user).Only Q) :
    (requireSession P r next).Only Q := by
  refine only_bind (only_resolveSession hQ) fun found => ?_
  split
  · trivial
  · exact hn _

theorem only_handleAuthStatus : (handleAuthStatus P cfg r).Only Q := by
  refine only_bind (only_resolveSession hQ) fun found => ?_
  split
  · trivial
  · refine only_bind (passive_call hQ trivial) fun count => ?_
    split <;> trivial

theorem only_handleLogout (user : SessionUser) : (handleLogout P r user).Only Q := by
  unfold handleLogout
  split
  · refine only_bind (passive_call hQ trivial) fun _ => ?_
    exact passive_audited hQ
  · exact passive_audited hQ

theorem only_stepUpOK (user : User) (secret : String) (req : StepUpRequest) :
    (stepUpOK user secret req).Only Q := by
  refine only_bind (passive_call hQ trivial) fun ok => ?_
  split
  · trivial
  split
  · trivial
  · exact passive_call hQ trivial

theorem only_recordFailedLogin (userId : Int) : (recordFailedLogin userId).Only Q := by
  refine only_bind (passive_call hQ trivial) fun count => ?_
  split
  · trivial
  split
  · refine only_bind (passive_call hQ trivial) fun now => ?_
    exact only_bind (passive_call hQ trivial) fun _ => trivial
  · trivial

theorem only_secondFactorOK (user : User) (req : LoginTOTPRequest) :
    (secondFactorOK P user req).Only Q := by
  unfold secondFactorOK
  split
  · refine only_bind (passive_call hQ trivial) fun secret => ?_
    split
    · trivial
    · exact passive_call hQ trivial
  split
  · refine only_bind (passive_call hQ trivial) fun used => ?_
    split <;> trivial
  · trivial

theorem only_githubCallbackFlow : (githubCallbackFlow r).Only Q := by
  refine only_bind (passive_readCookie hQ) fun cookie => ?_
  dsimp only
  split
  · exact passive_audited hQ
  split
  · exact passive_audited hQ
  split
  · exact passive_audited hQ
  · trivial

theorem only_writeGitHubSecrets (creds : GitHubAppCredentials) :
    (writeGitHubSecrets creds).Only Q := by
  refine only_bind (passive_call hQ trivial) fun ok => ?_
  split
  · trivial
  · exact passive_call hQ trivial

theorem only_recordGitHubConnected (creds : GitHubAppCredentials) :
    (recordGitHubConnected P creds).Only Q :=
  only_bind (passive_call hQ trivial) fun _ =>
    only_bind (passive_call hQ trivial) fun _ =>
      only_bind (passive_call hQ trivial) fun _ =>
        only_bind (passive_call hQ trivial) fun _ => trivial

theorem only_handleGitHubCallback : (handleGitHubCallback P r).Only Q := by
  have ha := fun (a t o : String) e =>
    only_auditDetail (r := r) (fun _ => hQ _ trivial) a "github.app_connect" t o e
  refine only_bind (only_githubCallbackFlow hQ) fun flow => ?_
  split
  · trivial
  dsimp only
  split
  · exact only_bind (ha _ _ _ _) fun _ => trivial
  refine only_bind (passive_call hQ trivial) fun creds => ?_
  split
  · exact only_bind (ha _ _ _ _) fun _ => trivial
  refine only_bind (only_writeGitHubSecrets hQ _) fun ok => ?_
  split
  · exact only_bind (ha _ _ _ _) fun _ => trivial
  · refine only_bind (only_recordGitHubConnected hQ _) fun _ => ?_
    exact only_bind (ha _ _ _ _) fun _ => trivial

theorem only_resolveOIDCUser {id : Identity}
    (hP : ∀ username, Q (.store (.createOIDCUser username id.issuer id.subject))) :
    (resolveOIDCUser id).Only Q := by
  refine only_bind (passive_call hQ trivial) fun found => ?_
  split
  · trivial
  · refine only_bind (only_of_call (hP _)) fun created => ?_
    split
    · trivial
    · refine only_bind (passive_call hQ trivial) fun again => ?_
      split <;> trivial
  · trivial

end Passive

section Marking

variable (hQ : ∀ c, Passive c → Q c)
  (hR : ∀ tokenHash, Q (.store (.markSessionReauth tokenHash)))
include hQ hR

theorem only_handleStepUp (user : SessionUser) (body : Option StepUpRequest) :
    (handleStepUp P r user body).Only Q := by
  unfold handleStepUp
  split
  · trivial
  split
  · trivial
  refine only_bind (passive_call hQ trivial) fun full => ?_
  split
  · trivial
  refine only_bind (passive_call hQ trivial) fun secret => ?_
  split
  · trivial
  refine only_bind (only_stepUpOK hQ _ _ _) fun ok => ?_
  split
  · exact passive_audited hQ
  split
  · exact passive_audited hQ
  refine only_bind (only_of_call (hR _)) fun marked => ?_
  split
  · exact passive_audited hQ
  · exact passive_audited hQ

theorem only_completeOIDCStepUp (flow : OIDCFlow) (id : Identity) (clear : Cookie) :
    (completeOIDCStepUp r flow id clear).Only Q := by
  unfold completeOIDCStepUp
  split
  · exact passive_audited hQ
  refine only_bind (passive_call hQ trivial) fun sess => ?_
  split
  · exact passive_audited hQ
  split
  · exact passive_audited hQ
  refine only_bind (passive_call hQ trivial) fun user => ?_
  split
  · trivial
  split
  · exact passive_audited hQ
  · refine only_bind (only_of_call (hR _)) fun marked => ?_
    split <;> exact passive_audited hQ

end Marking

section Sealing

variable (hQ : ∀ c, Passive c → Q c)
  (hS : ∀ writer text, Wrote writer text → Q (.cipherSeal writer text))
include hQ hS

theorem only_setChallengeCookie (ch : Challenge) (ttl : Time) :
    (setChallengeCookie r ch ttl).Only Q :=
  only_sealCookie (fun exp => hS _ _ ⟨{ ch with expires := exp }, rfl, rfl⟩) (hQ _ trivial)

theorem only_setOIDCCookie (flow : OIDCFlow) : (setOIDCCookie r flow).Only Q :=
  only_sealCookie (fun exp => hS _ _ ⟨{ flow with expires := exp }, rfl⟩) (hQ _ trivial)

theorem only_setGitHubCookie (flow : GitHubFlow) : (setGitHubCookie r flow).Only Q :=
  only_sealCookie (fun exp => hS _ _ ⟨{ flow with expires := exp }, rfl⟩) (hQ _ trivial)

theorem only_enrollAdmin (req : RedeemRequest) : (enrollAdmin req).Only Q := by
  refine only_bind (passive_call hQ trivial) fun passwordHash => ?_
  split
  · trivial
  refine only_bind (passive_call hQ trivial) fun key => ?_
  split
  · trivial
  rename_i secret _
  refine only_bind ⟨hS _ _ secret.base32, fun _ => trivial⟩ fun sealedSecret => ?_
  split
  · trivial
  refine only_bind (passive_call hQ trivial) fun codes => ?_
  split
  · trivial
  · refine only_bind (passive_call hQ trivial) fun user => ?_
    split <;> trivial

theorem only_handleRedeem (body : Option RedeemRequest) : (handleRedeem P cfg r body).Only Q := by
  unfold handleRedeem
  split
  · trivial
  refine only_bind (passive_call hQ trivial) fun count => ?_
  split
  · trivial
  split
  · exact passive_audited hQ
  split
  · trivial
  split
  · trivial
  split
  · exact passive_audited hQ
  refine only_bind (only_enrollAdmin hQ hS _) fun enrolled => ?_
  split
  · trivial
  refine only_bind (only_setChallengeCookie hQ hS _ _) fun cookie => ?_
  split
  · trivial
  · exact passive_audited hQ

theorem only_handleLogin (body : Option LoginRequest) : (handleLogin cfg r body).Only Q := by
  unfold handleLogin
  split
  · trivial
  refine only_bind (passive_call hQ trivial) fun user => ?_
  split
  · refine only_bind (passive_call hQ trivial) fun _ => ?_
    exact passive_audited hQ
  dsimp only
  split
  · refine only_bind (passive_call hQ trivial) fun _ => ?_
    exact passive_audited hQ
  refine only_bind ?_ fun locked => ?_
  · unfold handleLogin.isLocked
    split
    · trivial
    · exact only_bind (passive_call hQ trivial) fun _ => trivial
  split
  · exact passive_audited hQ
  refine only_bind (passive_call hQ trivial) fun pwOK => ?_
  split
  · split
    · refine only_bind (only_recordFailedLogin hQ _) fun _ => ?_
      exact passive_audited hQ
    · exact passive_audited hQ
  refine only_bind (only_setChallengeCookie hQ hS _ _) fun cookie => ?_
  split
  · trivial
  · exact passive_audited hQ

theorem only_handleOIDCLogin : (handleOIDCLogin P cfg r).Only Q := by
  unfold handleOIDCLogin
  split
  · trivial
  refine only_bind ?_ fun flow => ?_
  · unfold startOIDCFlow
    split
    · trivial
    refine only_bind (only_resolveSession hQ) fun found => ?_
    split
    · trivial
    split
    · trivial
    · split <;> trivial
  · split
    · trivial
    refine only_bind (passive_call hQ trivial) fun secrets => ?_
    split
    · trivial
    · refine only_bind (only_setOIDCCookie hQ hS _) fun cookie => ?_
      split <;> trivial

theorem only_handleGitHubManifest (user : SessionUser) :
    (handleGitHubManifest P cfg r user).Only Q := by
  unfold handleGitHubManifest
  dsimp only
  split
  · trivial
  split
  · trivial
  split
  · trivial
  refine only_bind (passive_call hQ trivial) fun state => ?_
  split
  · trivial
  · refine only_bind (only_setGitHubCookie hQ hS _) fun cookie => ?_
    split <;> trivial

end Sealing

section Minting

variable (hQ : ∀ c, Passive c → Q c)
  (hM : ∀ tokenHash userId expiresAt, Q (.store (.createSession tokenHash userId expiresAt)))
include hQ hM

theorem only_mintSession (userId : Int) : (mintSession userId).Only Q := by
  refine only_bind (passive_call hQ trivial) fun token => ?_
  split
  · trivial
  refine only_bind (passive_call hQ trivial) fun now => ?_
  refine only_bind ⟨hM _ _ _, fun _ => trivial⟩ fun created => ?_
  split <;> trivial

theorem only_finishSignIn (user : User) (action : String) :
    (finishSignIn r user action).Only Q := by
  refine only_bind (only_mintSession hQ hM _) fun raw => ?_
  split
  · trivial
  · exact passive_audited hQ

theorem only_handleConfirmTOTP (body : Option CodeRequest) : (handleConfirmTOTP r body).Only Q := by
  unfold handleConfirmTOTP
  split
  · trivial
  refine only_bind (passive_readCookie hQ) fun ch => ?_
  split
  · trivial
  refine only_bind (passive_call hQ trivial) fun user => ?_
  split
  · exact passive_audited hQ
  dsimp only
  split
  · exact passive_audited hQ
  refine only_bind (passive_call hQ trivial) fun secret => ?_
  split
  · trivial
  refine only_bind (passive_call hQ trivial) fun ok => ?_
  split
  · exact passive_audited hQ
  refine only_bind (passive_call hQ trivial) fun confirmed => ?_
  split
  · exact passive_audited hQ
  · trivial
  · exact only_finishSignIn hQ hM _ _

theorem only_handleLoginTOTP (body : Option LoginTOTPRequest) :
    (handleLoginTOTP P r body).Only Q := by
  unfold handleLoginTOTP
  split
  · trivial
  refine only_bind (passive_readCookie hQ) fun ch => ?_
  split
  · trivial
  refine only_bind (passive_call hQ trivial) fun user => ?_
  split
  · trivial
  split
  · trivial
  refine only_bind (only_secondFactorOK hQ _ _) fun ok => ?_
  split
  · refine only_bind (only_recordFailedLogin hQ _) fun _ => ?_
    exact passive_audited hQ
  · refine only_bind (passive_call hQ trivial) fun _ => ?_
    exact only_finishSignIn hQ hM _ _

theorem only_completeOIDCLogin {id : Identity}
    (hP : ∀ username, Q (.store (.createOIDCUser username id.issuer id.subject))) (clear : Cookie) :
    (completeOIDCLogin r id clear).Only Q := by
  refine only_bind (only_resolveOIDCUser hQ hP) fun user => ?_
  split
  · exact passive_audited hQ
  · refine only_bind (only_mintSession hQ hM _) fun raw => ?_
    split <;> exact passive_audited hQ

/-- The one handler that adds users of the identity provider and marks sessions. -/
theorem only_handleOIDCCallback
    (hP : ∀ username issuer subject, Q (.store (.createOIDCUser username issuer subject)))
    (hR : ∀ tokenHash, Q (.store (.markSessionReauth tokenHash))) :
    (handleOIDCCallback P cfg r).Only Q := by
  unfold handleOIDCCallback
  split
  · trivial
  refine only_bind (passive_readCookie hQ) fun cookie => ?_
  dsimp only
  split
  · exact passive_audited hQ
  split
  · exact passive_audited hQ
  split
  · exact passive_audited hQ
  split
  · exact passive_audited hQ
  refine only_bind (passive_call hQ trivial) fun id => ?_
  split
  · exact passive_audited hQ
  split
  · exact passive_audited hQ
  split
  · exact only_completeOIDCStepUp hQ hR _ _ _
  · exact only_completeOIDCLogin hQ hM (fun _ => hP _ _ _) _

end Minting

section Routes

variable (hQ : ∀ c, Passive c → Q c)
  (hS : ∀ writer text, Wrote writer text → Q (.cipherSeal writer text))
  (hM : ∀ tokenHash userId expiresAt, Q (.store (.createSession tokenHash userId expiresAt)))
  (hR : ∀ tokenHash, Q (.store (.markSessionReauth tokenHash)))
include hQ hS hM hR

/-- Only the OIDC callback adds users of the identity provider. -/
theorem only_serve_of_ne {route : Route} (hne : route ≠ .oidcCallback) :
    (serve P cfg r route).Only Q := by
  cases route with
  | oidcCallback => exact absurd rfl hne
  | status => exact only_handleAuthStatus hQ
  | redeem body => exact only_handleRedeem hQ hS body
  | confirmTOTP body => exact only_handleConfirmTOTP hQ hM body
  | login body => exact only_handleLogin hQ hS body
  | loginTOTP body => exact only_handleLoginTOTP hQ hM body
  | oidcLogin => exact only_handleOIDCLogin hQ hS
  | logout => exact only_requireSession hQ fun user => only_handleLogout hQ user
  | stepUp body => exact only_requireSession hQ fun user => only_handleStepUp hQ hR user body
  | githubManifest =>
    exact only_requireSession hQ fun user => only_handleGitHubManifest hQ hS user
  | githubCallback => exact only_handleGitHubCallback hQ

theorem only_serve
    (hP : ∀ username issuer subject, Q (.store (.createOIDCUser username issuer subject)))
    (route : Route) : (serve P cfg r route).Only Q := by
  by_cases hr : route = .oidcCallback
  · rw [hr]
    exact only_handleOIDCCallback hQ hM hP hR
  · exact only_serve_of_ne hQ hS hM hR hr

end Routes

section Authority

/-- The calls that a route may make. -/
def Route.grants : Route → Call → Prop
  | .redeem _, .cipherSeal _ _ | .login _, .cipherSeal _ _ => True
  | .oidcLogin, .cipherSeal _ _ | .githubManifest, .cipherSeal _ _ => True
  | .stepUp _, .store (.markSessionReauth _) => True
  | .confirmTOTP _, .store (.createSession _ _ _) => True
  | .loginTOTP _, .store (.createSession _ _ _) => True
  | .oidcCallback, .store (.createSession _ _ _) => True
  | .oidcCallback, .store (.createOIDCUser _ _ _) => True
  | .oidcCallback, .store (.markSessionReauth _) => True
  | _, c => Passive c

theorem Route.grants_passive (route : Route) (c : Call) (hc : Passive c) : route.grants c := by
  unfold grants
  split <;> trivial

/-- No route seals a text, begins or marks a session or adds a user unless it is there for it. -/
theorem serve_within_grants (route : Route) : (serve P cfg r route).Only route.grants := by
  have hQ := route.grants_passive
  cases route with
  | status => exact only_handleAuthStatus hQ
  | redeem body => exact only_handleRedeem hQ (fun _ _ _ => trivial) body
  | confirmTOTP body => exact only_handleConfirmTOTP hQ (fun _ _ _ => trivial) body
  | login body => exact only_handleLogin hQ (fun _ _ _ => trivial) body
  | loginTOTP body => exact only_handleLoginTOTP hQ (fun _ _ _ => trivial) body
  | oidcLogin => exact only_handleOIDCLogin hQ fun _ _ _ => trivial
  | oidcCallback =>
    exact only_handleOIDCCallback hQ (fun _ _ _ => trivial) (fun _ _ _ => trivial) fun _ => trivial
  | logout => exact only_requireSession hQ fun user => only_handleLogout hQ user
  | stepUp body =>
    exact only_requireSession hQ fun user => only_handleStepUp hQ (fun _ => trivial) user body
  | githubManifest =>
    exact only_requireSession hQ fun user => only_handleGitHubManifest hQ (fun _ _ _ => trivial) user
  | githubCallback => exact only_handleGitHubCallback hQ

end Authority

end Orkano.Dashboard
