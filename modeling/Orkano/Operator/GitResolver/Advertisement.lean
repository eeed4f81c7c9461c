import Mathlib.Data.List.Infix
import Orkano.Text.Runes

/-!
Git ref names and the advertisement of a smart-HTTP server: its packets, the refs they
name and how a requested ref is looked up among them. Text is taken as its bytes.
-/
namespace Orkano.Operator.GitResolver

open Text

def maxRefLength : ℕ := 250

inductive RefError where
  | tooLong
  | outside
  | malformed
deriving DecidableEq, Repr

/-- Control characters, blanks and those that Git gives a meaning. Bytes of a longer
character are none of them. -/
def forbiddenInRef (b : UInt8) : Bool := b ≤ 0x20 || b = 0x7f || b ∈ bytes "~^:?*[\\"

def validRefComponent (component : Bytes) : Bool :=
  component ≠ [] && !decide (bytes "." <+: component) && !decide (bytes ".lock" <:+ component)

def validGitRefName (ref : Bytes) : Bool :=
  ref ≠ bytes "@" && !decide (bytes "/" <+: ref) && !decide (bytes "/" <:+ ref) &&
    !decide (bytes "." <:+ ref) && !decide (bytes "//" <:+: ref) &&
    !decide (bytes ".." <:+: ref) && !decide (bytes "@\x7b" <:+: ref) &&
    (ref.splitOn 0x2f).all validRefComponent && !ref.any forbiddenInRef

def validateRef (ref : Bytes) : Option RefError :=
  if ref.length > maxRefLength then some .tooLong
  else if ref = [] || ref = bytes "HEAD" then none
  else if bytes "refs/" <+: ref ∧ ¬ bytes "refs/heads/" <+: ref ∧ ¬ bytes "refs/tags/" <+: ref then
    some .outside
  else
    let full := if bytes "refs/" <+: ref then ref else bytes "refs/heads/" ++ ref
    if validGitRefName full then none else some .malformed

def hexDigit (b : UInt8) : Option ℕ :=
  if 0x30 ≤ b && b ≤ 0x39 then some (b.toNat - 0x30)
  else if 0x61 ≤ b && b ≤ 0x66 then some (b.toNat - 0x61 + 10)
  else if 0x41 ≤ b && b ≤ 0x46 then some (b.toNat - 0x41 + 10)
  else none

def parseHex (digits : Bytes) : Option ℕ :=
  digits.foldlM (fun n b => (hexDigit b).map (n * 16 + ·)) 0

inductive PacketError where
  | truncatedLength
  | invalidLength
  | special
  | beyondResponse
deriving DecidableEq, Repr

inductive Packet where
  | flush
  | payload (line : Bytes)
deriving DecidableEq, Repr

def nextPacket (data : Bytes) : Except PacketError (Packet × Bytes) :=
  if data.length < 4 then .error .truncatedLength
  else match parseHex (data.take 4) with
  | none => .error .invalidLength
  | some length =>
    let rest := data.drop 4
    if length = 0 then .ok (.flush, rest)
    else if length < 4 then .error .special
    else if length - 4 > rest.length then .error .beyondResponse
    else .ok (.payload (rest.take (length - 4)), rest.drop (length - 4))

/-- A packet takes some bytes, so the reader ends. -/
theorem nextPacket_shorter {data rest : Bytes} {packet : Packet}
    (h : nextPacket data = .ok (packet, rest)) : rest.length < data.length := by
  simp only [nextPacket] at h
  split at h
  · cases h
  split at h
  · cases h
  split at h
  · cases h
    simp only [List.length_drop]
    omega
  split at h
  · cases h
  split at h
  · cases h
  cases h
  simp only [List.length_drop]
  omega

inductive AdvertisementError where
  | notAdvertisement
  | preamble
  | packet (e : PacketError)
  | unterminatedRef
  | malformedRef
  | repeatedRef (name : Bytes)
  | notFlushed
deriving DecidableEq, Repr

abbrev Refs := List (Bytes × Bytes)

def isLowerHexSHA (sha : Bytes) : Bool :=
  sha.length = 40 && sha.all fun c => (0x30 ≤ c && c ≤ 0x39) || (0x61 ≤ c && c ≤ 0x66)

def validAdvertisedRef (ref : Bytes) : Bool :=
  if ref = bytes "HEAD" || ref = bytes ".have" || ref = bytes "capabilities^\x7b\x7d" then true
  else if bytes "^\x7b\x7d" <:+ ref then
    let tag := ref.take (ref.length - 3)
    decide (bytes "refs/tags/" <+: tag) && validGitRefName tag
  else decide (bytes "refs/" <+: ref) && validGitRefName ref

/-- The parts of a text around the first separator. -/
def cutBytes (value : Bytes) (separator : UInt8) : Option (Bytes × Bytes) :=
  if separator ∈ value then
    some (value.takeWhile (· ≠ separator), (value.dropWhile (· ≠ separator)).tail)
  else none

/-- The name and object ID of a ref line; the first line's capabilities are cut off. -/
def parseRefLine (line : Bytes) : Except AdvertisementError (Bytes × Bytes) :=
  if line.getLast? ≠ some 0x0a then .error .unterminatedRef
  else match cutBytes (line.dropLast.takeWhile (· ≠ 0)) 0x20 with
  | none => .error .malformedRef
  | some (sha, name) =>
    if !isLowerHexSHA sha || !validAdvertisedRef name then .error .malformedRef
    else .ok (name, sha)

def parseRefs (data : Bytes) (refs : Refs) : Except AdvertisementError Refs :=
  if data = [] then .error .notFlushed
  else match _h : nextPacket data with
  | .error e => .error (.packet e)
  | .ok (.flush, rest) => if rest = [] then .ok refs else .error .notFlushed
  | .ok (.payload line, rest) =>
    match parseRefLine line with
    | .error e => .error e
    | .ok (name, sha) =>
      if (refs.lookup name).any (· ≠ sha) then .error (.repeatedRef name)
      else parseRefs rest ((name, sha) :: refs)
termination_by data.length
decreasing_by exact nextPacket_shorter _h

def parseAdvertisement (body : Bytes) : Except AdvertisementError Refs :=
  match nextPacket body with
  | .ok (.payload service, rest) =>
    if service ≠ bytes "# service=git-upload-pack\n" then .error .notAdvertisement
    else match nextPacket rest with
    | .ok (.flush, rest) => parseRefs rest []
    | _ => .error .preamble
  | _ => .error .notAdvertisement

/-- An annotated tag stands for the object it points to. -/
def resolveTag (refs : Refs) (tag : Bytes) : Option Bytes :=
  (refs.lookup (tag ++ bytes "^\x7b\x7d")).or (refs.lookup tag)

def resolveRef (refs : Refs) (ref : Bytes) : Option Bytes :=
  if ref = [] || ref = bytes "HEAD" then refs.lookup (bytes "HEAD")
  else if bytes "refs/heads/" <+: ref then refs.lookup ref
  else if bytes "refs/tags/" <+: ref then resolveTag refs ref
  else (refs.lookup (bytes "refs/heads/" ++ ref)).or (resolveTag refs (bytes "refs/tags/" ++ ref))

example : validateRef (bytes "refs/notes/x") = some .outside := by decide

example : validateRef (bytes "feature/login") = none := by decide

end Orkano.Operator.GitResolver
