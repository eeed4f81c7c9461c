import Orkano.Dashboard.Auth.Payloads
import Orkano.Dashboard.Auth.World

/-!
Requests, responses, and the cookies of the auth flows: sealed JSON documents with an
absolute expiry, and the opaque token of a session.
-/
namespace Orkano.Dashboard

open Interleave

abbrev Prog := Program dashboard

def call (c : Call) : Prog c.Reply := Program.perform (I := dashboard) c

def storeCall (c : StoreCall) : Prog (Except DbError c.Row) := call (.store c)

structure Request where
  cookies : List (String × String)
  query : List (String × String)
  clientIP : String
  isHTTPS : Bool
  host : String

/-- The value of a cookie that is present and not empty. -/
def Request.cookie (r : Request) (name : String) : Option String :=
  match r.cookies.lookup name with
  | some "" | none => none
  | some v => some v

/-- `url.Values.Get`: the first value, or the empty string. -/
def Request.param (r : Request) (name : String) : String := (r.query.lookup name).getD ""

inductive SameSite where
  | strict
  | lax
deriving DecidableEq, Repr

structure Cookie where
  name : String
  value : String
  path : String
  httpOnly : Bool
  secure : Bool
  sameSite : SameSite
  maxAge : Int
deriving DecidableEq, Repr

structure Manifest where
  name : String
  url : String
  hookURL : String
  redirectURL : String
  callbackURLs : List String
  isPublic : Bool
  defaultPermissions : List (String × String)
  defaultEvents : List String
deriving DecidableEq, Repr

inductive BodyField where
  | text (s : String)
  | texts (l : List String)
  | flag (b : Bool)
  | manifest (m : Manifest)
deriving DecidableEq, Repr

/-- A response: JSON fields, or a redirect when `location` is not empty. -/
structure Response where
  status : Nat
  body : List (String × BodyField)
  location : String
  cookies : List Cookie
deriving DecidableEq, Repr

def writeJSON (status : Nat) (body : List (String × BodyField)) (cookies : List Cookie) : Response :=
  ⟨status, body, "", cookies⟩

def writeJSONError (status : Nat) (code : String) (cookies : List Cookie) : Response :=
  writeJSON status [("error", .text code)] cookies

def redirect (location : String) (cookies : List Cookie) : Response :=
  ⟨302, [], location, cookies⟩

def minute : Time := 60 * 1000000000

def second : Time := 1000000000

/-- `time.Time.Unix`. -/
def unix (t : Time) : Int64 := Int64.ofInt (t / second)

def enrollChallengeTTL : Time := 10 * minute
def totpChallengeTTL : Time := 5 * minute
def oidcFlowTTL : Time := 10 * minute
def githubFlowTTL : Time := 15 * minute
def sessionTTL : Time := 12 * 60 * minute

def challengeCookie : String := "orkano_challenge"
def oidcCookie : String := "orkano_oidc"
def githubCookie : String := "orkano_github"
def sessionCookie : String := "orkano_session"

def stageEnroll : String := "enroll"
def stageTOTP : String := "totp"

/-- The cookies of the auth flows differ in name, value, lifetime and whether
they are sent on a navigation that another site started. -/
def authCookie (r : Request) (sameSite : SameSite) (name value : String) (maxAge : Int) : Cookie :=
  ⟨name, value, "/", true, r.isHTTPS, sameSite, maxAge⟩

def setSessionCookie (r : Request) (raw : String) : Cookie :=
  authCookie r .strict sessionCookie raw (sessionTTL / second)

def clearCookie (r : Request) (name : String) : Cookie := authCookie r .strict name "" (-1)

def clearOIDCCookie (r : Request) : Cookie := authCookie r .lax oidcCookie "" (-1)

def clearGitHubCookie (r : Request) : Cookie := authCookie r .lax githubCookie "" (-1)

/-- Stamp the expiry into a document, seal it, and put it into a cookie; `none`
when sealing fails. -/
def sealCookie (r : Request) (writer : Writer) (sameSite : SameSite) (name : String) (ttl : Time)
    (payload : Int64 → String) : Prog (Option Cookie) := do
  let now ← call .now
  let sealed ← call (.cipherSeal writer (payload (unix (now + ttl))))
  return sealed.map fun value => authCookie r sameSite name value (ttl / second)

def setChallengeCookie (r : Request) (ch : Challenge) (ttl : Time) : Prog (Option Cookie) :=
  sealCookie r (.challenge ch.stage) .strict challengeCookie ttl fun exp =>
    { ch with expires := exp }.marshal

def setOIDCCookie (r : Request) (flow : OIDCFlow) : Prog (Option Cookie) :=
  sealCookie r .oidc .lax oidcCookie oidcFlowTTL fun exp => { flow with expires := exp }.marshal

def setGitHubCookie (r : Request) (flow : GitHubFlow) : Prog (Option Cookie) :=
  sealCookie r .github .lax githubCookie githubFlowTTL fun exp =>
    { flow with expires := exp }.marshal

/-- Open a cookie, decode it, and accept it if it passes its own check and is not
expired. The clock is read only when the check passed. -/
def readCookie {α : Type} (r : Request) (name : String) (decode : String → Option α)
    (own : α → Bool) (expires : α → Int64) : Prog (Option α) :=
  match r.cookie name with
  | none => return none
  | some value => do
    match ← call (.cipherOpen value) with
    | none => return none
    | some plain =>
      match decode plain with
      | none => return none
      | some a =>
        if !own a then return none
        else
          let now ← call .now
          return if expires a ≤ unix now then none else some a

def readChallenge (r : Request) (stage : String) : Prog (Option Challenge) :=
  readCookie r challengeCookie Challenge.unmarshal (fun ch => ch.stage = stage) (·.expires)

def readOIDCCookie (r : Request) : Prog (Option OIDCFlow) :=
  readCookie r oidcCookie OIDCFlow.unmarshal (fun flow => flow.state ≠ "") (·.expires)

def readGitHubCookie (r : Request) : Prog (Option GitHubFlow) :=
  readCookie r githubCookie GitHubFlow.unmarshal (fun flow => flow.state ≠ "") (·.expires)

section Reads

open Program

variable {α : Type} {P : Primitives} {faulty : Bool} {r : Request} {name : String}
  {decode : String → Option α} {own : α → Bool} {expires : α → Int64} {w w' : World} {a : α}

/-- When a sealed cookie is accepted: it decodes, is the reader's own and has not expired. -/
theorem runs_readCookie {v text : String} {writer : Writer} (hr : r.cookie name = some v) (hv : w.lookup v = some (writer, text)) :
    Runs (machine P faulty).exec (readCookie r name decode own expires) w (some a) w' ↔
      decode text = some a ∧ own a = true ∧ unix w'.clock < expires a ∧
        w' = { w with clock := w'.clock } := by
  constructor
  · intro h
    simp only [readCookie, hr, call, perform_bind, runs_call, exec_cipherOpen] at h
    obtain ⟨_, _, ⟨rfl, rfl⟩, h⟩ := h
    simp only [hv, Option.map_some] at h
    split at h
    · simp at h
    rename_i b hd
    split at h
    · simp at h
    rename_i ho
    obtain ⟨now, _, hn, h⟩ := runs_call.mp h
    obtain rfl := exec_now.mp hn
    obtain ⟨ha, rfl⟩ := runs_done.mp h
    split at ha
    · cases ha
    rename_i ht
    cases ha
    exact ⟨hd, by simpa using ho, Int64.not_le.mp ht, rfl⟩
  · rintro ⟨hd, ho, ht, hw⟩
    simp only [readCookie, hr, call, perform_bind, runs_call, exec_cipherOpen]
    refine ⟨some text, w, ⟨by simp [hv], rfl⟩, ?_⟩
    simp only [hd, ho, Bool.not_true, Bool.false_eq_true, if_false]
    refine runs_call.mpr ⟨w'.clock, w', exec_now.mpr hw, runs_done.mpr ⟨?_, rfl⟩⟩
    rw [if_neg (Int64.not_le.mpr ht)]

theorem sealed_of_runs_readCookie
    (h : Runs (machine P faulty).exec (readCookie r name decode own expires) w (some a) w') :
    ∃ v writer text, r.cookie name = some v ∧ w.lookup v = some (writer, text) := by
  unfold readCookie at h
  split at h
  · simp at h
  rename_i v hv
  simp only [call, perform_bind, runs_call, exec_cipherOpen] at h
  obtain ⟨_, w1, ⟨rfl, rfl⟩, h⟩ := h
  cases hl : w1.lookup v with
  | none => simp [hl] at h
  | some entry => exact ⟨v, entry.1, entry.2, hv, hl⟩

end Reads

section Sessions

variable (P : Primitives)

/-- The identity that `RequireSession` attaches to a request. -/
structure SessionUser where
  id : Int
  username : String
  oidc : Bool
deriving DecidableEq, Repr

/-- Create a session for a user; the raw token is the cookie value. -/
def mintSession (userId : Int) : Prog (Option String) := do
  match ← call .newSessionToken with
  | none => return none
  | some (raw, hash) =>
    let now ← call .now
    match ← storeCall (.createSession hash userId (now + sessionTTL)) with
    | .error _ => return none
    | .ok () => return some raw

/-- The session of a request: an unexpired row whose user is confirmed or linked. -/
def resolveSession (r : Request) : Prog (Option (SessionUser × Session)) :=
  match r.cookie sessionCookie with
  | none => return none
  | some raw => do
    let hash := hashToken P raw
    match ← storeCall (.getSession hash) with
    | .error _ => return none
    | .ok sess =>
      match ← storeCall (.getUserByID sess.userId) with
      | .error _ => return none
      | .ok user =>
        if !user.confirmed && !user.linked then return none
        else
          let _ ← storeCall (.touchSession hash)
          return some (⟨user.id, user.username, user.linked⟩, sess)

/-- Middleware: only a request with a session reaches `next`. -/
def requireSession (r : Request) (next : SessionUser → Prog Response) : Prog Response := do
  match ← resolveSession P r with
  | none => return writeJSONError 401 "unauthorized" []
  | some (user, _) => next user

end Sessions

open Json in
def auditDetail (r : Request) (actor action target outcome : String)
    (extra : List (String × Scalar)) : Prog Unit := do
  let actor := if actor = "" then "anonymous" else actor
  -- a Go map is marshalled with its keys in order
  let detail := (("ip", Scalar.string r.clientIP) :: extra).mergeSort fun a b => a.1 ≤ b.1
  let _ ← storeCall (.appendAuditEntry ⟨actor, action, target, outcome, marshal detail⟩)
  return ()

def audit (r : Request) (actor action target outcome : String) : Prog Unit :=
  auditDetail r actor action target outcome []

end Orkano.Dashboard
