import Orkano.Dashboard.Auth.Store

/-!
The credential primitives of the dashboard's `auth` package. Nothing is assumed about the
library functions in `Primitives` here.
-/
namespace Orkano.Dashboard

structure Primitives where
  /-- Lowercase hex of SHA-256. -/
  sha256Hex : String → String
  /-- The database server's `lower`. -/
  lower : String → String
  /-- Go's `unicode.ToUpper`. -/
  toUpper : Char → Char
  /-- `bcrypt.CompareHashAndPassword` succeeds on a hash and a password. -/
  passwordMatches : String → String → Bool
  /-- `totp.Validate` at a time, on a seed and a code. -/
  totpValid : Time → String → String → Bool
  /-- Go's `strings.ToLower`. -/
  toLower : String → String
  /-- Go's `strings.TrimSpace`. -/
  trimSpace : String → String
  /-- A time in UTC as RFC 3339 text. -/
  formatRFC3339 : Time → String

variable (P : Primitives)

def hashToken (raw : String) : String := P.sha256Hex raw

def minPasswordLength : Nat := 12

/-- The password policy counts bytes, and bcrypt ignores any beyond 72. -/
def validatePasswordPolicy (plain : String) : Bool :=
  minPasswordLength ≤ plain.utf8ByteSize && plain.utf8ByteSize ≤ 72

def recoveryAlphabet : List Char := "ABCDEFGHJKMNPQRSTVWXYZ0123456789".toList

def recoveryGroups : Nat := 4

def recoveryGroupLen : Nat := 4

def recoverySymbol (b : UInt8) : Char := recoveryAlphabet.getD (b.toNat % recoveryAlphabet.length) '0'

/-- One code from its random bytes: groups of symbols joined by hyphens. -/
def newRecoveryCode (buf : List UInt8) : String :=
  let chars := buf.map recoverySymbol
  let groups := (List.range recoveryGroups).map fun g =>
    String.ofList ((chars.drop (g * recoveryGroupLen)).take recoveryGroupLen)
  String.intercalate "-" groups

def normalizeRecoveryCode (code : String) : String :=
  String.ofList ((code.toList.filter fun r => r ∉ ['-', ' ', '\t', '\n', '\r']).map P.toUpper)

def hashRecoveryCode (code : String) : String := P.sha256Hex (normalizeRecoveryCode P code)

/-- The alphabet of a TOTP seed, which is base32 without padding. -/
def isBase32 (c : Char) : Bool := c.isUpper || ('2' ≤ c && c ≤ '7')

structure Seed where
  text : String
  base32 : text.toList.all isBase32
deriving DecidableEq, Repr

structure Identity where
  subject : String
  issuer : String
  email : String
  emailVerified : Bool
  groups : List String
deriving DecidableEq, Repr

/-- The OIDC client: its allowlist, and the identity provider's authorization URL
for a state, a nonce, a PKCE verifier and whether to force a new sign-in. -/
structure Authenticator where
  allowedEmails : List String
  allowedGroups : List String
  authCodeURL : String → String → String → Bool → String

/-- An email counts only when the provider vouches for it. -/
def Authenticator.authorize (a : Authenticator) (id : Identity) : Bool :=
  (id.emailVerified && id.email ≠ "" &&
      a.allowedEmails.contains (P.toLower (P.trimSpace id.email))) ||
    id.groups.any a.allowedGroups.contains

structure GitHubAppCredentials where
  id : Int64
  slug : String
  pem : String
  webhookSecret : String
deriving DecidableEq, Repr

end Orkano.Dashboard
