import Orkano.Interleave.Program
import Orkano.Json.Struct
import Orkano.RepoAllowlist.Normalize

/-!
The webhook receiver: it verifies the signature of a delivery, takes the repository's name from
the payload, asks the allowlist and records a pointer in the queue. Logging is left out.
-/
namespace Orkano.Receiver

open Interleave RepoAllowlist Text

structure Primitives where
  hmacSHA256 : Bytes → Bytes → Bytes
  lowering : Lowering

def defaultMaxBodyBytes : ℕ := 25 * 2 ^ 20
def maxDeliveryIDLen : ℕ := 72
def maxRepoLen : ℕ := 200

inductive PolicyError where
  | unreadable
  | invalid (e : NormalizeError)
deriving DecidableEq, Repr

inductive AllowlistSource where
  | file
  | fixed (repositories : Except NormalizeError (List String))

structure Config where
  secret : Bytes
  allowlist : List String
  fromFile : Bool
  maxBody : ℤ

structure Handler where
  secret : Bytes
  source : AllowlistSource
  maxBody : ℕ

def newHandler (P : Primitives) (cfg : Config) : Handler where
  secret := cfg.secret
  source := if cfg.fromFile then .file else .fixed (normalize P.lowering cfg.allowlist)
  maxBody := if cfg.maxBody ≤ 0 then defaultMaxBodyBytes else cfg.maxBody.toNat

structure Body where
  bytes : Bytes
  broken : Bool
deriving DecidableEq, Repr

structure Request where
  method : String
  body : Body
  signature : Bytes
  event : Bytes
  delivery : Bytes
deriving DecidableEq, Repr

structure Response where
  status : ℕ
  message : String
  allow : Option String
deriving DecidableEq, Repr

def respond (status : ℕ) (message : String) : Response := ⟨status, message, none⟩

inductive ReadError where
  | tooLarge
  | failed
deriving DecidableEq, Repr

/-- Read a body of at most `maxBody` bytes. -/
def readBody (maxBody : ℕ) (body : Body) : Except ReadError Bytes :=
  if body.bytes.length > maxBody then .error .tooLarge
  else if body.broken then .error .failed
  else .ok body.bytes

def hexDigit (n : UInt8) : UInt8 := if n < 10 then 0x30 + n else 0x61 + (n - 10)

def hexEncode (text : Bytes) : Bytes := text.flatMap fun b => [hexDigit (b / 16), hexDigit (b % 16)]

def validSignature (P : Primitives) (secret header body : Bytes) : Bool :=
  header ≠ [] && bytes "sha256=" ++ hexEncode (P.hmacSHA256 secret body) = header

/-- The name that the payload gives its repository, empty where it gives none. -/
def repositoryName (body : Bytes) : Option String :=
  let fullName : Json.Field String := .string "full_name" fun s _ => s
  let repository : Json.Field String := .nested "repository" [fullName] id fun s _ => s
  Json.unmarshal [repository] "" (String.ofList (decodeRunes body))

structure EnqueueDeliveryParams where
  deliveryID : Bytes
  repo : String
  eventType : Bytes
deriving DecidableEq, Repr

inductive Call where
  | readPolicy
  | enqueueDelivery (arg : EnqueueDeliveryParams)

/-- An answer, or nothing on an error; an insert tells the number of rows. -/
@[reducible] def Call.Reply : Call → Type
  | readPolicy => Option Bytes
  | enqueueDelivery _ => Option ℕ

abbrev receiver : Interface := ⟨Call, Call.Reply⟩

abbrev Prog := Program receiver

def call (c : Call) : Prog c.Reply := Program.perform (I := receiver) c

variable (P : Primitives) (h : Handler)

def AllowlistSource.repositories : AllowlistSource → Prog (Except PolicyError (List String))
  | file => do
    match ← call .readPolicy with
    | none => return .error .unreadable
    | some raw => return (parse P.lowering (String.ofList (decodeRunes raw))).mapError .invalid
  | fixed repositories => return repositories.mapError .invalid

def repositories : Prog (Except PolicyError (List String)) := do
  match ← h.source.repositories P with
  | .error e => return .error e
  | .ok repositories => return (normalize P.lowering repositories).mapError .invalid

def allowed (repo : String) : Prog (Except PolicyError Bool) := do
  match ← repositories P h with
  | .error e => return .error e
  | .ok repositories => return .ok (repositories.contains (P.lowering.toLower repo))

/-- A push whose delivery ID and repository have been checked. -/
def acceptPush (delivery : Bytes) (repo : String) (event : Bytes) : Prog Response := do
  match ← allowed P h repo with
  | .error _ => return respond 503 "repository policy unavailable"
  | .ok false => return respond 403 "repository not allowed"
  | .ok true =>
    match ← call (.enqueueDelivery ⟨delivery, repo, event⟩) with
    | none => return respond 500 "enqueue failed"
    | some _ => return respond 202 "accepted"

def push (r : Request) (body : Bytes) : Prog Response :=
  if r.delivery = [] then return respond 400 "missing delivery id"
  else if r.delivery.length > maxDeliveryIDLen then return respond 400 "field too long"
  else match repositoryName body with
  | none => return respond 400 "invalid json"
  | some repo =>
    if repo = "" then return respond 400 "missing repository"
    else if byteLength repo > maxRepoLen then return respond 400 "field too long"
    else acceptPush P h r.delivery repo r.event

def webhook (r : Request) : Prog Response :=
  if r.method ≠ "POST" then return { respond 405 "method not allowed" with allow := some "POST" }
  else match readBody h.maxBody r.body with
  | .error .tooLarge => return respond 413 "body too large"
  | .error .failed => return respond 400 "cannot read body"
  | .ok body =>
    if !validSignature P h.secret r.signature body then
      return respond 401 "signature verification failed"
    else if r.event = bytes "ping" then return respond 200 "pong"
    else if r.event = bytes "push" then push P h r body
    else return respond 200 "ignored"

end Orkano.Receiver
