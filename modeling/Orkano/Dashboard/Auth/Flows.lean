import Orkano.Dashboard.Auth.Handlers

/-!
The two browser flows through another site: OIDC sign-in and step-up, and the GitHub App
manifest flow. Both seal a random state on the way out and compare it on the way back.
-/
namespace Orkano.Dashboard

variable (P : Primitives) (cfg : ServerConfig)

def redirectSSOError (code : String) (cookies : List Cookie) : Response :=
  redirect ("/?sso_error=" ++ code) cookies

/-- The flow to start: a plain sign-in, or a step-up of the session of the request,
which must be a live one of a linked user. -/
def startOIDCFlow (r : Request) (reauth : Bool) : Prog (Except String OIDCFlow) :=
  if !reauth then return .ok OIDCFlow.zero
  else do
    match ← resolveSession P r with
    | none => return .error "no_session"
    | some (user, _) =>
      if !user.oidc then return .error "not_oidc"
      else match r.cookie sessionCookie with
        | none => return .error "no_session"
        | some raw =>
          return .ok { OIDCFlow.zero with
            reauth := true, uid := Int64.ofInt user.id, sessionHash := hashToken P raw }

def handleOIDCLogin (r : Request) : Prog Response :=
  match cfg.oidc with
  | none => return redirectSSOError "disabled" []
  | some idp => do
    let reauth := decide (r.param "stepup" = "1")
    match ← startOIDCFlow P r reauth with
    | .error code => return redirectSSOError code []
    | .ok flow =>
      match ← call .newFlowSecrets with
      | none => return redirectSSOError "internal_error" []
      | some (state, nonce, verifier) =>
        match ← setOIDCCookie r { flow with state, nonce, verifier } with
        | none => return redirectSSOError "internal_error" []
        | some cookie => return redirect (idp.authCodeURL state nonce verifier reauth) [cookie]

def maxUsernameLen : Nat := 254

/-- The first `n` bytes of a text; `none` when they end inside a character and so
are no valid UTF-8. -/
def takeBytes : Nat → List Char → Option (List Char)
  | _, [] => some []
  | n, c :: cs =>
    if n = 0 then some []
    else if c.utf8Size ≤ n then (takeBytes (n - c.utf8Size) cs).map (c :: ·)
    else none

/-- The display name of a new user, capped at the column's limit in bytes. -/
def provisionedUsername (id : Identity) : Option String :=
  let username := if id.email = "" then id.subject else id.email
  if username.utf8ByteSize > maxUsernameLen then
    (takeBytes maxUsernameLen username.toList).map String.ofList
  else some username

/-- The user of a verified identity, provisioned on its first sign-in. -/
def resolveOIDCUser (id : Identity) : Prog (Except DbError (Int × String)) := do
  match ← storeCall (.getUserByOIDC id.issuer id.subject) with
  | .ok u => return .ok (u.id, u.username)
  | .error .noRows =>
    match ← storeCall (.createOIDCUser (provisionedUsername id) id.issuer id.subject) with
    | .ok created => return .ok (created.id, created.username)
    | .error e =>
      -- a concurrent first sign-in may have won the unique index
      match ← storeCall (.getUserByOIDC id.issuer id.subject) with
      | .ok u => return .ok (u.id, u.username)
      | .error _ => return .error e
  | .error e => return .error e

def oidcActor (id : Identity) : String := if id.email ≠ "" then id.email else id.subject

/-- Mark the session that started the flow, if it still belongs to the identity
that was just verified. -/
def completeOIDCStepUp (r : Request) (flow : OIDCFlow) (id : Identity) (clear : Cookie) :
    Prog Response := do
  let failed := audit r (oidcActor id) "auth.oidc_stepup" (oidcActor id) "failure"
  if flow.sessionHash = "" then
    failed
    return redirectSSOError "no_session" [clear]
  else
    match ← storeCall (.getSession flow.sessionHash) with
    | .error _ =>
      failed
      return redirectSSOError "no_session" [clear]
    | .ok sess =>
      if sess.userId ≠ flow.uid.toInt then
        failed
        return redirectSSOError "internal_error" [clear]
      else
        match ← storeCall (.getUserByID sess.userId) with
        | .error _ => return redirectSSOError "internal_error" [clear]
        | .ok user =>
          let outcome := audit r user.username "auth.oidc_stepup" user.username
          -- only the subject is compared
          if user.oidc.map Prod.snd ≠ some id.subject || id.subject = "" then
            outcome "failure"
            return redirectSSOError "not_allowed" [clear]
          else
            match ← storeCall (.markSessionReauth flow.sessionHash) with
            | .error _ =>
              outcome "failure"
              return redirectSSOError "internal_error" [clear]
            | .ok () =>
              outcome "success"
              return redirect "/" [clear]

/-- Sign the identity in: resolve or provision its user, and mint a session. -/
def completeOIDCLogin (r : Request) (id : Identity) (clear : Cookie) : Prog Response := do
  match ← resolveOIDCUser id with
  | .error _ =>
    audit r (oidcActor id) "auth.oidc_login" (oidcActor id) "failure"
    return redirectSSOError "internal_error" [clear]
  | .ok (uid, username) =>
    match ← mintSession uid with
    | none =>
      audit r username "auth.oidc_login" username "failure"
      return redirectSSOError "internal_error" [clear]
    | some raw =>
      audit r username "auth.oidc_login" username "success"
      return redirect "/" [clear, setSessionCookie r raw]

def handleOIDCCallback (r : Request) : Prog Response :=
  match cfg.oidc with
  | none => return redirectSSOError "disabled" []
  | some idp => do
    let cookie ← readOIDCCookie r
    let clear := clearOIDCCookie r
    let action :=
      if cookie.any fun flow => flow.reauth then "auth.oidc_stepup" else "auth.oidc_login"
    let refuse (code : String) : Prog Response := do
      audit r "anonymous" action "" "failure"
      return redirectSSOError code [clear]
    if r.param "error" ≠ "" then refuse "idp_error"
    else match cookie with
    | none => refuse "no_flow"
    | some flow =>
      if r.param "state" = "" || r.param "state" ≠ flow.state then refuse "state_mismatch"
      else if r.param "code" = "" then refuse "exchange_failed"
      else
        match ← call (.exchangeOIDC (r.param "code") flow.nonce flow.verifier) with
        | none => refuse "exchange_failed"
        | some id =>
          if !idp.authorize P id then
            audit r (oidcActor id) action (oidcActor id) "denied"
            return redirectSSOError "not_allowed" [clear]
          else if flow.reauth then completeOIDCStepUp r flow id clear
          else completeOIDCLogin r id clear

def githubCallbackPath : String := "/api/github/app/callback"
def defaultGitHubBaseURL : String := "https://github.com"
def defaultAppName : String := "orkano"
def githubAppSecretName : String := "orkano-github-app"
def webhookSecretName : String := "orkano-webhook-secret"

def isAlphanum (c : Char) : Bool := c.isAlpha || c.isDigit

/-- A GitHub login: letters, digits and inner hyphens, at most 39 of them. -/
def validOrgName (org : String) : Bool :=
  let cs := org.toList
  0 < cs.length && cs.length ≤ 39 && cs.all (fun c => isAlphanum c || c = '-') &&
    cs.head?.all isAlphanum && cs.getLast?.all isAlphanum

def validAppName (name : String) : Bool :=
  let cs := name.toList
  0 < cs.length && cs.length ≤ 34 && cs.head?.all isAlphanum &&
    cs.all fun c => isAlphanum c || c = ' ' || c = '_' || c = '-'

def dashboardBaseURL (r : Request) : String :=
  if cfg.publicURL ≠ "" then cfg.publicURL
  else (if r.isHTTPS then "https" else "http") ++ "://" ++ r.host

/-- Neither part needs escaping: the login is checked and the state is hex. -/
def newAppURL (org state : String) : String :=
  let base := if cfg.githubBaseURL ≠ "" then cfg.githubBaseURL else defaultGitHubBaseURL
  let path :=
    if org ≠ "" then base ++ "/organizations/" ++ org ++ "/settings/apps/new"
    else base ++ "/settings/apps/new"
  path ++ "?state=" ++ state

def newManifest (r : Request) (name : String) : Manifest :=
  let redirectURL := dashboardBaseURL cfg r ++ githubCallbackPath
  { name
    url := "https://github.com/orkanoio/orkano"
    hookURL := cfg.webhookURL
    redirectURL
    callbackURLs := [redirectURL]
    isPublic := false
    defaultPermissions := [("contents", "read"), ("metadata", "read")]
    defaultEvents := ["push"] }

def handleGitHubManifest (r : Request) (user : SessionUser) : Prog Response := do
  let org := r.param "org"
  let name := P.trimSpace (r.param "name")
  if cfg.webhookURL = "" then return writeJSONError 409 "webhook_url_not_configured" []
  else if org ≠ "" && !validOrgName org then return writeJSONError 400 "invalid_org" []
  else if name ≠ "" && !validAppName name then return writeJSONError 400 "invalid_name" []
  else
    match ← call .randomState with
    | none => return internalError []
    | some state =>
      match ← setGitHubCookie r ⟨state, user.username, 0⟩ with
      | none => return internalError []
      | some cookie =>
        let name := if name = "" then defaultAppName else name
        return writeJSON 200
          [("postUrl", .text (newAppURL cfg org state)),
           ("manifest", .manifest (newManifest cfg r name))] [cookie]

def redirectGitHubError (code : String) (cookies : List Cookie) : Response :=
  redirect ("/?github_error=" ++ code) cookies

/-- The App's credential first, then the webhook secret; a failure stops here. -/
def writeGitHubSecrets (creds : GitHubAppCredentials) : Prog Bool := do
  if !(← call (.updateSecret githubAppSecretName
      [("app-id", toString creds.id.toInt), ("private-key.pem", creds.pem)])) then return false
  else call (.updateSecret webhookSecretName [("secret", creds.webhookSecret)])

/-- Three best-effort markers, the connected one last. -/
def recordGitHubConnected (creds : GitHubAppCredentials) : Prog Unit := do
  let now ← call .now
  let _ ← storeCall (.upsertSetting "github_app_slug" creds.slug)
  let _ ← storeCall (.upsertSetting "github_app_id" (toString creds.id.toInt))
  let _ ← storeCall (.upsertSetting "github_connected_at" (P.formatRFC3339 now))
  return ()

/-- The part of the callback that decides whether a flow is being completed: the
flow of the cookie when its state is the query's, and the redirect otherwise. -/
def githubCallbackFlow (r : Request) : Prog (Except Response GitHubFlow) := do
  let cookie ← readGitHubCookie r
  let clear := clearGitHubCookie r
  let actor := (cookie.map (·.actor)).getD "anonymous"
  let refuse (code : String) : Prog (Except Response GitHubFlow) := do
    audit r actor "github.app_connect" "" "failure"
    return .error (redirectGitHubError code [clear])
  if r.param "error" ≠ "" then refuse "exchange_failed"
  else match cookie with
  | none => refuse "no_flow"
  | some flow =>
    if r.param "state" = "" || r.param "state" ≠ flow.state then refuse "state_mismatch"
    else return .ok flow

def handleGitHubCallback (r : Request) : Prog Response := do
  match ← githubCallbackFlow r with
  | .error response => return response
  | .ok flow =>
    let clear := clearGitHubCookie r
    let outcome := auditDetail r flow.actor "github.app_connect"
    if r.param "code" = "" then
      outcome "" "failure" []
      return redirectGitHubError "no_code" [clear]
    else
      match ← call (.exchangeGitHub (r.param "code")) with
      | none =>
        outcome "" "failure" []
        return redirectGitHubError "exchange_failed" [clear]
      | some creds =>
        if !(← writeGitHubSecrets creds) then
          outcome creds.slug "failure" []
          return redirectGitHubError "write_failed" [clear]
        else
          recordGitHubConnected P creds
          outcome creds.slug "success" [("app_id", .int creds.id.toInt)]
          return redirect "/?github=connected" [clear]

end Orkano.Dashboard
