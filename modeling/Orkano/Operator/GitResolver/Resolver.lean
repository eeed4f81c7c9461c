import Orkano.Interleave.Program
import Orkano.Operator.GitResolver.Address
import Orkano.Operator.GitResolver.Advertisement

/-!
The resolver of anonymous HTTPS Git refs, with the redirect loop of the client and the transport.
Parsing and rendering of URLs, addresses and media types are left open.
-/
namespace Orkano.Operator.GitResolver

open Interleave Text

def advertisementMediaType : String := "application/x-git-upload-pack-advertisement"
def maxAdvertisementBytes : ℕ := 4 * 2 ^ 20
def maxRedirects : ℕ := 10

structure URL where
  scheme : String
  opaquePart : String
  user : Option String
  host : String
  path : Bytes
  rawPath : Bytes
  forceQuery : Bool
  rawQuery : String
  fragment : String
deriving DecidableEq, Repr

/-- What follows the last colon, if there is one, and what stands before it. -/
def cutLastColon (cs : List Char) : Option (List Char × List Char) :=
  if ':' ∈ cs then
    let port := (cs.reverse.takeWhile (· ≠ ':')).reverse
    some (cs.take (cs.length - port.length - 1), port)
  else none

/-- Host and port of a URL: a colon with anything but digits behind it is part of the host,
and brackets are stripped. -/
def URL.hostPort (u : URL) : String × String :=
  let (host, port) := match cutLastColon u.host.toList with
    | some (host, port) => if port.all Char.isDigit then (host, port) else (u.host.toList, [])
    | none => (u.host.toList, [])
  let host := if host.head? = some '[' && host.getLast? = some ']' then host.tail.dropLast else host
  (String.ofList host, String.ofList port)

def URL.hostname (u : URL) : String := u.hostPort.1

def URL.port (u : URL) : String := u.hostPort.2

/-- `net.SplitHostPort`. -/
def splitHostPort (address : String) : Option (String × String) :=
  match address.toList, cutLastColon address.toList with
  | _, none => none
  | '[' :: inner, some (before, port) =>
    let host := inner.takeWhile (· ≠ ']')
    if before ≠ '[' :: host ++ [']'] || '[' ∈ inner || ']' ∈ port then none
    else some (String.ofList host, String.ofList port)
  | cs, some (before, port) =>
    if ':' ∈ before || '[' ∈ cs || ']' ∈ cs then none
    else some (String.ofList before, String.ofList port)

def joinHostPort (host port : String) : String :=
  if ':' ∈ host.toList then "[" ++ host ++ "]:" ++ port else host ++ ":" ++ port

def hexChar (c : Char) : Option UInt8 :=
  if c.isDigit then some (c.toNat - '0'.toNat).toUInt8
  else if 'a' ≤ c && c ≤ 'f' then some (c.toNat - 'a'.toNat + 10).toUInt8
  else if 'A' ≤ c && c ≤ 'F' then some (c.toNat - 'A'.toNat + 10).toUInt8
  else none

def queryUnescape : List Char → Option Bytes
  | [] => some []
  | '%' :: a :: b :: rest => do
    let high ← hexChar a
    let low ← hexChar b
    return (high * 16 + low) :: (← queryUnescape rest)
  | '%' :: _ => none
  | '+' :: rest => (queryUnescape rest).map (0x20 :: ·)
  | c :: rest => (queryUnescape rest).map (String.utf8EncodeChar c ++ ·)

/-- The key and value of one part of a query; `none` for a part that does not decode. -/
def decodePair (part : List Char) : Option (Bytes × Bytes) :=
  if ';' ∈ part then none
  else do
    let key ← queryUnescape (part.takeWhile (· ≠ '='))
    let value ← queryUnescape (part.dropWhile (· ≠ '=')).tail
    return (key, value)

def queryParts (raw : String) : List (List Char) := (raw.toList.splitOn '&').filter (· ≠ [])

def maxQueryParams : ℕ := 10000

/-- `URL.Query`: the pairs in order. A part that does not decode is dropped without an
error. -/
def parseQuery (raw : String) : List (Bytes × Bytes) :=
  if (raw.toList.splitOn '&').length > maxQueryParams then []
  else (queryParts raw).filterMap decodePair

structure Stdlib where
  /-- `url.Parse`. -/
  parseURL : String → Option URL
  /-- `URL.Parse`, a reference taken from a base. -/
  resolveReference : URL → String → Option URL
  /-- `URL.String`. -/
  renderURL : URL → String
  /-- `netip.ParseAddr`. -/
  parseAddr : String → Option Addr
  /-- The host as it is dialed. -/
  idnaASCII : String → String
  trimSpace : String → String
  equalFold : String → String → Bool
  /-- `mime.ParseMediaType`, without the parameters. -/
  parseMediaType : String → Option String

inductive HostRole where
  | repository
  | redirect
  | dial
deriving DecidableEq, Repr

inductive Problem where
  | ref (e : RefError)
  | urlText
  | urlParse
  | notHTTPS
  | credentials
  | fragment
  | port (port : String)
  | query
  | serviceQuery
  | nonPublic (addr : Addr)
  | lookup (host : String)
  | noAddresses (host : String)
  | invalidAddress (host : String)
  | validating (role : HostRole) (host : String) (cause : Problem)
  | dialAddress (address : String)
  | dialPort (port : String)
  | dialing (host : String)
  | contextDone
  | redirects
  | location
  | transport
  | fetching (cause : Problem)
  | status (code : ℕ)
  | contentType (value : String)
  | reading
  | tooLarge
  | advertisement (e : AdvertisementError)
  | notAdvertised (ref : Bytes)
deriving DecidableEq, Repr

/-- The errors that wrap `ErrUnresolvable`; the others are worth a retry. -/
def Problem.unresolvable : Problem → Bool
  | lookup _ | noAddresses _ | invalidAddress _ | dialing _ | contextDone | location | transport
  | reading => false
  | validating _ _ cause | fetching cause => cause.unresolvable
  | status code => code ≠ 408 && code ≠ 429 && code < 500
  | _ => true

section Shape

variable (S : Stdlib)

def serviceKey : Bytes := bytes "service"
def uploadPack : Bytes := bytes "git-upload-pack"

def validateURLShape (u : URL) (allowServiceQuery : Bool) : Option Problem :=
  if !S.equalFold u.scheme "https" || u.hostname = "" || u.opaquePart ≠ "" then some .notHTTPS
  else if u.user.isSome then some .credentials
  else if u.fragment ≠ "" then some .fragment
  else if u.port ≠ "" && u.port ≠ "443" then some (.port u.port)
  else if !allowServiceQuery then
    if u.rawQuery ≠ "" || u.forceQuery then some .query else none
  else
    let query := parseQuery u.rawQuery
    let values := (query.filter fun pair => pair.1 = serviceKey).map Prod.snd
    if (query.map Prod.fst).dedup.length ≠ 1 || values ≠ [uploadPack] then some .serviceQuery
    else none

def parseRepositoryURL (raw : String) : Except Problem URL :=
  if raw = "" || raw ≠ S.trimSpace raw || raw.toList.any (fun c => c.toNat < 0x20 || c.toNat = 0x7f)
  then .error .urlText
  else match S.parseURL raw with
  | none => .error .urlParse
  | some u => match validateURLShape S u false with
    | some e => .error e
    | none => .ok { u with scheme := "https" }

end Shape

inductive Purpose where
  | vet
  | dial
deriving DecidableEq, Repr

structure Endpoint where
  ip : Addr
  port : String
deriving DecidableEq, Repr

/-- A GET request; `via` are the URLs of the requests that led to it, oldest first. -/
structure Request where
  url : URL
  headers : List (String × String)
  via : List URL
deriving DecidableEq, Repr

/-- An absent header is empty. The body is what a bounded read gives, `none` when it
fails. -/
structure Response where
  status : ℕ
  location : String
  contentType : String
  body : Option Bytes
deriving DecidableEq, Repr

inductive ConnectReply where
  | opened
  | failed
  /-- It failed, and the context is done. -/
  | cancelled
deriving DecidableEq, Repr

inductive SendReply where
  | response (r : Response)
  | failed
  /-- The connection was gone and nothing was answered; the transport may try again. -/
  | stale
deriving DecidableEq, Repr

inductive Call where
  | lookupIP (purpose : Purpose) (host : String)
  | connect (network : String) (endpoint : Endpoint)
  /-- Whether an idle connection to the address is taken. -/
  | reuse (address : String)
  /-- How often the transport tries again. -/
  | retries
  | send (request : Request)

@[reducible] def Call.Reply : Call → Type
  | lookupIP _ _ => Option (List IPAddr)
  | connect _ _ => ConnectReply
  | reuse _ => Bool
  | retries => ℕ
  | send _ => SendReply

abbrev internet : Interface := ⟨Call, Call.Reply⟩

abbrev Prog := Program internet

def call (c : Call) : Prog c.Reply := Program.perform (I := internet) c

variable (S : Stdlib)

def vetAnswer (host : String) (a : IPAddr) : Except Problem Addr :=
  match addrFromSlice a.ip with
  | none => .error (.invalidAddress host)
  | some addr =>
    if a.zone ≠ "" || !isPublicIP addr.unmap then .error (.nonPublic addr.unmap) else .ok addr.unmap

/-- The loop over an answer, with the addresses gathered so far. -/
def vetAnswers (host : String) : List IPAddr → List Addr → Except Problem (List Addr)
  | [], addresses => .ok addresses
  | a :: rest, addresses =>
    match vetAnswer host a with
    | .error e => .error e
    | .ok addr =>
      vetAnswers host rest (if addr ∈ addresses then addresses else addresses ++ [addr])

def publicIPs (purpose : Purpose) (host : String) : Prog (Except Problem (List Addr)) :=
  match S.parseAddr host with
  | some literal =>
    let literal := literal.unmap
    if literal.zone ≠ "" || !isPublicIP literal then return .error (.nonPublic literal)
    else return .ok [literal]
  | none => do
    match ← call (.lookupIP purpose host) with
    | none => return .error (.lookup host)
    | some [] => return .error (.noAddresses host)
    | some answer => return vetAnswers host answer []

def matchesNetwork (network : String) : Addr → Bool
  | .v4 _ => network ≠ "tcp6"
  | .v6 _ _ => network ≠ "tcp4"

def dialEach (network host port : String) : List Addr → Prog (Except Problem Unit)
  | [] => return .error (.dialing host)
  | ip :: rest =>
    if !matchesNetwork network ip then dialEach network host port rest
    else do
      match ← call (.connect network ⟨ip, port⟩) with
      | .opened => return .ok ()
      | .cancelled => return .error .contextDone
      | .failed => dialEach network host port rest

def dialContext (network address : String) : Prog (Except Problem Unit) :=
  match splitHostPort address with
  | none => return .error (.dialAddress address)
  | some (host, port) =>
    if port ≠ "443" then return .error (.dialPort port)
    else do
      match ← publicIPs S .dial host with
      | .error e => return .error (.validating .dial host e)
      | .ok ips => dialEach network host port ips

def canonicalAddr (u : URL) : String :=
  let port := if u.port ≠ "" then u.port else if u.scheme = "https" then "443"
    else if u.scheme = "http" then "80" else ""
  joinHostPort (S.idnaASCII u.hostname) port

def getConn (u : URL) : Prog (Except Problem Unit) := do
  if ← call (.reuse (canonicalAddr S u)) then return .ok ()
  else dialContext S "tcp" (canonicalAddr S u)

def exchange (req : Request) : Prog (Except Problem SendReply) := do
  match ← getConn S req.url with
  | .error e => return .error e
  | .ok () => return .ok (← call (.send req))

/-- A request is sent again when its connection was gone, as often as the transport cares to. -/
def roundTrip (req : Request) : ℕ → Prog (Except Problem Response)
  | 0 => return .error .transport
  | attempts + 1 => do
    match ← exchange S req with
    | .error e => return .error e
    | .ok (.response r) => return .ok r
    | .ok .failed => return .error .transport
    | .ok .stale => roundTrip req attempts

def isRedirect (status : ℕ) : Bool := status ∈ [301, 302, 303, 307, 308]

/-- The request keeps its place; only the scheme is written anew. -/
def checkRedirect (req : Request) : Prog (Except Problem Request) :=
  if req.via.length ≥ maxRedirects then return .error .redirects
  else match validateURLShape S req.url true with
  | some e => return .error e
  | none => do
    match ← publicIPs S .vet req.url.hostname with
    | .error e => return .error (.validating .redirect req.url.hostname e)
    | .ok _ => return .ok { req with url := { req.url with scheme := "https" } }

/-- The headers of a redirected request: the first one's and where it comes from. -/
def redirectHeaders (headers : List (String × String)) (last new : URL) : List (String × String) :=
  if last.scheme = "https" && new.scheme = "http" then headers
  else headers ++ [("Referer", S.renderURL { last with user := none })]

/-- The request that a response redirects to, if it does. -/
def redirectTarget (req : Request) (resp : Response) : Except Problem (Option URL) :=
  if !isRedirect resp.status || resp.location = "" then .ok none
  else match S.resolveReference req.url resp.location with
  | none => .error .location
  | some u => .ok (some u)

/-- One turn of the client's loop: the final response, or the request to go on with. -/
def clientTurn (headers : List (String × String)) (req : Request) :
    Prog (Except Problem (Response ⊕ Request)) := do
  match ← roundTrip S req ((← call .retries) + 1) with
  | .error e => return .error e
  | .ok resp =>
    match redirectTarget S req resp with
    | .error e => return .error e
    | .ok none => return .ok (.inl resp)
    | .ok (some u) =>
      let next : Request := ⟨u, redirectHeaders S headers req.url u, req.via ++ [req.url]⟩
      return (← checkRedirect S next).map .inr

/-- `Client.Do`. The redirect check ends the chain before the turns run out. -/
def clientDo (headers : List (String × String)) : ℕ → Request → Prog (Except Problem Response)
  | 0, _ => return .error .redirects
  | turns + 1, req => do
    match ← clientTurn S headers req with
    | .error e => return .error e
    | .ok (.inl resp) => return .ok resp
    | .ok (.inr next) => clientDo headers turns next

def requestHeaders : List (String × String) :=
  [("Accept", advertisementMediaType), ("User-Agent", "orkano-git-resolver/1")]

def trimRightSlash (path : Bytes) : Bytes := (path.reverse.dropWhile (· = 0x2f)).reverse

def advertisementURL (repository : URL) : URL :=
  { repository with
    path := trimRightSlash repository.path ++ bytes "/info/refs"
    rawPath := []
    rawQuery := "service=git-upload-pack" }

/-- What the resolver makes of the final response. -/
def readAdvertisement (ref : Bytes) (resp : Response) : Except Problem Bytes :=
  if resp.status ≠ 200 then .error (.status resp.status)
  else if !(S.parseMediaType resp.contentType).any (S.equalFold · advertisementMediaType) then
    .error (.contentType resp.contentType)
  else match resp.body with
  | none => .error .reading
  | some body =>
    if body.length > maxAdvertisementBytes then .error .tooLarge
    else match parseAdvertisement body with
    | .error e => .error (.advertisement e)
    | .ok refs =>
      match resolveRef refs ref with
      | none => .error (.notAdvertised ref)
      | some sha => .ok sha

def resolveCommit (repoURL : String) (ref : Bytes) : Prog (Except Problem Bytes) :=
  match validateRef ref with
  | some e => return .error (.ref e)
  | none =>
    match parseRepositoryURL S repoURL with
    | .error e => return .error e
    | .ok repository => do
      match ← publicIPs S .vet repository.hostname with
      | .error e => return .error (.validating .repository repository.hostname e)
      | .ok _ =>
        let req : Request := ⟨advertisementURL repository, requestHeaders, []⟩
        match ← clientDo S requestHeaders maxRedirects req with
        | .error e => return .error (.fetching e)
        | .ok resp => return readAdvertisement S ref resp

end Orkano.Operator.GitResolver
