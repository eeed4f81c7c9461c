import Orkano.Dashboard.Auth.Cookies

/-!
The handlers of the auth API, each a program over the calls of the dashboard; the decoded
body is an argument, absent when decoding failed.
-/
namespace Orkano.Dashboard

structure ServerConfig where
  bootstrapTokenHash : String
  dummyPasswordHash : String
  oidc : Option Authenticator
  webhookURL : String
  publicURL : String
  githubBaseURL : String

def maxFailedLogins : Nat := 5
def lockoutWindow : Time := 15 * minute
def recoveryCodeCount : Nat := 10
def totpIssuer : String := "Orkano"

structure RedeemRequest where
  token : String
  username : String
  password : String
deriving DecidableEq, Repr

structure CodeRequest where
  code : String
deriving DecidableEq, Repr

structure LoginRequest where
  username : String
  password : String
deriving DecidableEq, Repr

structure LoginTOTPRequest where
  code : String
  recoveryCode : String
deriving DecidableEq, Repr

structure StepUpRequest where
  password : String
  code : String
deriving DecidableEq, Repr

variable (P : Primitives) (cfg : ServerConfig)

def invalidRequest : Response := writeJSONError 400 "invalid_request" []

def internalError (cookies : List Cookie) : Response := writeJSONError 500 "internal_error" cookies

def handleAuthStatus (r : Request) : Prog Response := do
  let oidcEnabled := ("oidcEnabled", BodyField.flag cfg.oidc.isSome)
  match ← resolveSession P r with
  | some (user, _) =>
    return writeJSON 200 [("state", .text "authenticated"), ("username", .text user.username),
      ("oidc", .flag user.oidc), oidcEnabled] []
  | none =>
    match ← storeCall .countConfirmedAdmins with
    | .error _ => return writeJSONError 503 "unavailable" []
    | .ok 0 => return writeJSON 200 [("state", .text "needs_bootstrap"), oidcEnabled] []
    | .ok _ => return writeJSON 200 [("state", .text "needs_login"), oidcEnabled] []

/-- Mint the credentials of a new admin and store them; `none` when a step fails. -/
def enrollAdmin (req : RedeemRequest) : Prog (Option (User × String × List String)) := do
  match ← call (.hashPassword req.password) with
  | none => return none
  | some passwordHash =>
    match ← call (.generateTOTP totpIssuer req.username) with
    | none => return none
    | some (secret, otpauthURL) =>
      match ← call (.cipherSeal .totpSeed secret.text) with
      | none => return none
      | some sealedSecret =>
        match ← call (.generateRecoveryCodes recoveryCodeCount) with
        | none => return none
        | some (plainCodes, codeHashes) =>
          match ← storeCall
              (.createAdmin ⟨req.username, passwordHash, sealedSecret, codeHashes⟩) with
          | .error _ => return none
          | .ok user => return some (user, otpauthURL, plainCodes)

def handleRedeem (r : Request) (body : Option RedeemRequest) : Prog Response :=
  match body with
  | none => return invalidRequest
  | some req => do
    match ← storeCall .countConfirmedAdmins with
    | .error _ => return writeJSONError 503 "unavailable" []
    | .ok n =>
      if n > 0 then
        audit r "anonymous" "bootstrap.redeem" "" "failure"
        return writeJSONError 409 "already_bootstrapped" []
      -- the username bound is in bytes; the checks of the body come before the token
      else if req.username = "" || req.username.utf8ByteSize > 254 then
        return writeJSONError 400 "invalid_username" []
      else if !validatePasswordPolicy req.password then
        return writeJSONError 400 "weak_password" []
      else if hashToken P req.token ≠ cfg.bootstrapTokenHash then
        audit r "anonymous" "bootstrap.redeem" req.username "failure"
        return writeJSONError 401 "invalid_token" []
      else
        match ← enrollAdmin req with
        | none => return internalError []
        | some (user, otpauthURL, plainCodes) =>
          match ← setChallengeCookie r ⟨Int64.ofInt user.id, stageEnroll, 0⟩ enrollChallengeTTL with
          | none => return internalError []
          | some cookie =>
            audit r req.username "bootstrap.redeem" req.username "success"
            return writeJSON 200
              [("otpauthUrl", .text otpauthURL), ("recoveryCodes", .texts plainCodes)] [cookie]

/-- The last step of enrollment and of a login: a session for the user, the
challenge spent. -/
def finishSignIn (r : Request) (user : User) (action : String) : Prog Response := do
  let clear := clearCookie r challengeCookie
  match ← mintSession user.id with
  | none => return internalError [clear]
  | some raw =>
    audit r user.username action user.username "success"
    return writeJSON 200 [("state", .text "authenticated"), ("username", .text user.username)]
      [clear, setSessionCookie r raw]

def handleConfirmTOTP (r : Request) (body : Option CodeRequest) : Prog Response :=
  match body with
  | none => return invalidRequest
  | some req => do
    match ← readChallenge r stageEnroll with
    | none => return writeJSONError 401 "no_challenge" []
    | some ch =>
      match ← storeCall (.getUserByID ch.uid.toInt) with
      | .error _ =>
        audit r "anonymous" "bootstrap.confirm_totp" "" "failure"
        return writeJSONError 401 "unauthorized" []
      | .ok user =>
        let failed := audit r user.username "bootstrap.confirm_totp" user.username "failure"
        if user.confirmed then
          failed
          return writeJSONError 401 "unauthorized" []
        else
          match ← call (.cipherOpen user.totpSecret) with
          | none => return internalError []
          | some secret =>
            if !(← call (.validateTOTP user.id secret req.code)) then
              failed
              return writeJSONError 401 "invalid_code" []
            else
              match ← storeCall (.confirmUserTOTP user.id) with
              | .error .uniqueViolation =>
                failed
                return writeJSONError 409 "already_bootstrapped" []
              | .error _ => return internalError []
              | .ok () => finishSignIn r user "bootstrap.confirm_totp"

/-- Bump the failure counter, and lock the account once it reaches the threshold. -/
def recordFailedLogin (userId : Int) : Prog Unit := do
  match ← storeCall (.incrementFailedLogins userId) with
  | .error _ => return ()
  | .ok count =>
    if count ≥ maxFailedLogins then
      let now ← call .now
      let _ ← storeCall (.lockUser userId (now + lockoutWindow))
      return ()
    else return ()

def handleLogin (r : Request) (body : Option LoginRequest) : Prog Response :=
  match body with
  | none => return invalidRequest
  | some req => do
    let invalid := writeJSONError 401 "invalid_credentials" []
    match ← storeCall (.getUserByUsername req.username) with
    | .error _ =>
      let _ ← call (.verifyPassword none cfg.dummyPasswordHash req.password)
      audit r req.username "auth.login" req.username "failure"
      return invalid
    | .ok user =>
      let outcome := audit r user.username "auth.login" user.username
      if user.linked then
        let _ ← call (.verifyPassword none cfg.dummyPasswordHash req.password)
        outcome "failure"
        return invalid
      else if ← isLocked user.lockedUntil then
        outcome "locked"
        return writeJSONError 423 "account_locked" []
      else
        let pwOK ← call (.verifyPassword (some user.id) user.passwordHash req.password)
        if !pwOK || !user.confirmed then
          if user.confirmed && !pwOK then recordFailedLogin user.id
          outcome "failure"
          return invalid
        else
          match ← setChallengeCookie r ⟨Int64.ofInt user.id, stageTOTP, 0⟩ totpChallengeTTL with
          | none => return internalError []
          | some cookie =>
            outcome "success"
            return writeJSON 200 [("state", .text "totp_required")] [cookie]
where
  /-- The clock is read only for a user with a lock. -/
  isLocked : Option Time → Prog Bool
    | none => return false
    | some lockedUntil => do return (← call .now) < lockedUntil

/-- A live TOTP code, or a recovery code that is consumed by the check. -/
def secondFactorOK (user : User) (req : LoginTOTPRequest) : Prog Bool :=
  if req.code ≠ "" then do
    match ← call (.cipherOpen user.totpSecret) with
    | none => return false
    | some secret => call (.validateTOTP user.id secret req.code)
  else if req.recoveryCode ≠ "" then do
    match ← storeCall (.consumeRecoveryCode user.id (hashRecoveryCode P req.recoveryCode)) with
    | .error _ => return false
    | .ok () => return true
  else return false

def handleLoginTOTP (r : Request) (body : Option LoginTOTPRequest) : Prog Response :=
  match body with
  | none => return invalidRequest
  | some req => do
    match ← readChallenge r stageTOTP with
    | none => return writeJSONError 401 "no_challenge" []
    | some ch =>
      match ← storeCall (.getUserByID ch.uid.toInt) with
      | .error _ => return writeJSONError 401 "unauthorized" []
      | .ok user =>
        if !user.confirmed then return writeJSONError 401 "unauthorized" []
        else if !(← secondFactorOK P user req) then
          recordFailedLogin user.id
          audit r user.username "auth.login_totp" user.username "failure"
          return writeJSONError 401 "invalid_credentials" []
        else
          let _ ← storeCall (.resetFailedLogins user.id)
          finishSignIn r user "auth.login_totp"

def handleLogout (r : Request) (user : SessionUser) : Prog Response := do
  match r.cookie sessionCookie with
  | some raw => let _ ← storeCall (.deleteSession (hashToken P raw))
  | none => pure ()
  audit r user.username "auth.logout" user.username "success"
  return ⟨204, [], "", [clearCookie r sessionCookie]⟩

/-- A TOTP code is required; a password is checked only if one was sent. -/
def stepUpOK (user : User) (secret : String) (req : StepUpRequest) : Prog Bool := do
  if !(← call (.validateTOTP user.id secret req.code)) then return false
  else if req.password = "" then return true
  else call (.verifyPassword (some user.id) user.passwordHash req.password)

def handleStepUp (r : Request) (user : SessionUser) (body : Option StepUpRequest) :
    Prog Response :=
  if user.oidc then return writeJSONError 400 "oidc_stepup_required" []
  else match body with
  | none => return invalidRequest
  | some req => do
    let outcome := audit r user.username "auth.stepup" user.username
    match ← storeCall (.getUserByID user.id) with
    | .error _ => return internalError []
    | .ok full =>
      match ← call (.cipherOpen full.totpSecret) with
      | none => return internalError []
      | some secret =>
        if !(← stepUpOK full secret req) then
          outcome "failure"
          return writeJSONError 401 "invalid_credentials" []
        else
          match r.cookie sessionCookie with
          | none =>
            outcome "success"
            return ⟨204, [], "", []⟩
          | some raw =>
            match ← storeCall (.markSessionReauth (hashToken P raw)) with
            | .error _ =>
              outcome "failure"
              return internalError []
            | .ok () =>
              outcome "success"
              return ⟨204, [], "", []⟩

end Orkano.Dashboard
