import Orkano.Dashboard.Auth.Flows

/-!
The routes of the auth and GitHub APIs, with the session middleware, and the server as a system
that runs any number of requests at once. A restart loses the requests in flight.
-/
namespace Orkano.Dashboard

open Interleave

inductive Route where
  | status
  | redeem (body : Option RedeemRequest)
  | confirmTOTP (body : Option CodeRequest)
  | login (body : Option LoginRequest)
  | loginTOTP (body : Option LoginTOTPRequest)
  | oidcLogin
  | oidcCallback
  | logout
  | stepUp (body : Option StepUpRequest)
  | githubManifest
  | githubCallback

variable (P : Primitives) (cfg : ServerConfig)

def serve (r : Request) : Route → Prog Response
  | .status => handleAuthStatus P cfg r
  | .redeem body => handleRedeem P cfg r body
  | .confirmTOTP body => handleConfirmTOTP r body
  | .login body => handleLogin cfg r body
  | .loginTOTP body => handleLoginTOTP P r body
  | .oidcLogin => handleOIDCLogin P cfg r
  | .oidcCallback => handleOIDCCallback P cfg r
  | .logout => requireSession P r (handleLogout P r)
  | .stepUp body => requireSession P r fun user => handleStepUp P r user body
  | .githubManifest => requireSession P r (handleGitHubManifest P cfg r)
  | .githubCallback => handleGitHubCallback P r

/-- The dashboard with any number of requests in flight. -/
def server (faulty : Bool) : System dashboard World ℕ Response where
  exec _ := (machine P faulty).exec
  env _ _ := False
  restart w w' := w' = w
  starts _ p := ∃ r route, p = serve P cfg r route

def samplePrimitives : Primitives where
  sha256Hex := id
  lower := id
  toUpper := Char.toUpper
  passwordMatches hash plain := hash = plain
  totpValid _ secret code := secret = code
  toLower := id
  trimSpace := id
  formatRFC3339 _ := ""

def sampleConfig : ServerConfig where
  bootstrapTokenHash := ""
  dummyPasswordHash := ""
  oidc := some { allowedEmails := [], allowedGroups := [], authCodeURL := fun _ _ _ _ => "/idp" }
  webhookURL := ""
  publicURL := ""
  githubBaseURL := ""

def emptyWorld : World where
  db := ⟨[], 1, [], [], [], []⟩
  sealed := []
  secrets := []
  clock := 0
  trace := []

def anonymousRequest : Request := ⟨[], [], "192.0.2.1", false, "localhost"⟩

/-- Choices for a run on fixed inputs at time `t`: every call succeeds if it can. -/
def samplePick (t : Time) : (c : Call) → World → c.Choice
  | .now, _ | .validateTOTP _ _ _, _ => t
  | .cipherSeal _ _, w => some (String.ofList (List.replicate w.sealed.length 'x'))
  | .cipherOpen _, _ | .verifyPassword _ _ _, _ => ()
  | .hashPassword plain, _ => some plain
  | .generateTOTP _ _, _ => some (⟨"A", by decide⟩, "otpauth://totp")
  | .generateRecoveryCodes n, _ =>
    some ((List.range n).map fun i => List.replicate (recoveryGroups * recoveryGroupLen) (.ofNat i))
  | .newSessionToken, w => some (String.ofList (List.replicate w.db.sessions.length 's'))
  | .newFlowSecrets, _ => some ("s", "n", "v")
  | .randomState, _ => some "s"
  | .exchangeOIDC _ _ _, _ | .exchangeGitHub _, _ => none
  | .updateSecret _ _, _ => true
  | .store _, _ => ⟨t, none⟩

def sampleServe (t : Time) (r : Request) (route : Route) (w : World) : World :=
  match (machine samplePrimitives false).simulate (samplePick t)
      (serve samplePrimitives sampleConfig r route) w with
  | some (_, w') => w'
  | none => w

theorem steps_sampleServe (t : Time) (r : Request) (route : Route) (w : World) :
    (server samplePrimitives sampleConfig false).Steps (Config.idle w)
      (Config.idle (sampleServe t r route w)) := by
  unfold sampleServe
  split
  · rename_i h
    exact System.steps_idle_of_runs (t := 0) ⟨r, route, rfl⟩ (Machine.runs_of_simulate _ h)
  · exact .refl

end Orkano.Dashboard
