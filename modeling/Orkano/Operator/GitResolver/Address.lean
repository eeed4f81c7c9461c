import Mathlib.Data.BitVec

/-!
IP addresses as the resolver vets them: the two families of `net/netip`, with the tests
and special-use prefixes that decide whether an address is public.
-/
namespace Orkano.Operator.GitResolver

inductive Addr where
  | v4 (bits : BitVec 32)
  | v6 (bits : BitVec 128) (zone : String)
deriving DecidableEq, Repr

namespace Addr

def zone : Addr → String
  | v4 _ => ""
  | v6 _ zone => zone

/-- An IPv4 address in IPv6 clothes (`::ffff:0:0/96`) becomes that IPv4 address, without
its zone. -/
def unmap : Addr → Addr
  | v4 bits => v4 bits
  | v6 bits zone => if bits >>> 32 = 0xffff#128 then v4 (bits.truncate 32) else v6 bits zone

def isLoopback (a : Addr) : Bool :=
  match a.unmap with
  | v4 bits => bits >>> 24 = 127#32
  | v6 bits _ => bits = 1#128

def isMulticast (a : Addr) : Bool :=
  match a.unmap with
  | v4 bits => bits >>> 28 = 0xe#32
  | v6 bits _ => bits >>> 120 = 0xff#128

def isLinkLocalUnicast (a : Addr) : Bool :=
  match a.unmap with
  | v4 bits => bits >>> 16 = 0xa9fe#32
  | v6 bits _ => bits >>> 118 = 0x3fa#128

def isLinkLocalMulticast (a : Addr) : Bool :=
  match a.unmap with
  | v4 bits => bits >>> 8 = 0xe00000#32
  | v6 bits _ => (bits >>> 112) &&& 0xff0f#128 = 0xff02#128

def isPrivate (a : Addr) : Bool :=
  match a.unmap with
  | v4 bits => bits >>> 24 = 10#32 || bits >>> 20 = 0xac1#32 || bits >>> 16 = 0xc0a8#32
  | v6 bits _ => bits >>> 121 = 0x7e#128

def isUnspecified (a : Addr) : Bool := a = v4 0#32 || a = v6 0#128 ""

def isGlobalUnicast (a : Addr) : Bool :=
  let a := a.unmap
  a ≠ v4 0#32 && a ≠ v4 0xffffffff#32 && a ≠ v6 0#128 "" && !a.isLoopback && !a.isMulticast &&
    !a.isLinkLocalUnicast

end Addr

inductive Prefix where
  | v4 (base : BitVec 32) (bits : ℕ)
  | v6 (base : BitVec 128) (bits : ℕ)
deriving DecidableEq, Repr

def Prefix.contains : Prefix → Addr → Bool
  | .v4 base bits, .v4 a => a >>> (32 - bits) = base >>> (32 - bits)
  | .v6 base bits, .v6 a zone => zone = "" && a >>> (128 - bits) = base >>> (128 - bits)
  | _, _ => false

def nonPublicSpecialUse : List Prefix :=
  [.v4 0x00000000#32 8,
    .v4 0x64400000#32 10,
    .v4 0xc0000000#32 24,
    .v4 0xc0000200#32 24,
    .v4 0xc0586300#32 24,
    .v4 0xc6120000#32 15,
    .v4 0xc6336400#32 24,
    .v4 0xcb007100#32 24,
    .v4 0xf0000000#32 4,
    .v6 0x0064ff9b000100000000000000000000#128 48,
    .v6 0x01000000000000000000000000000000#128 64,
    .v6 0x20010000000000000000000000000000#128 23,
    .v6 0x20010db8000000000000000000000000#128 32,
    .v6 0x20020000000000000000000000000000#128 16,
    .v6 0xfec00000000000000000000000000000#128 10]

def isPublicIP (a : Addr) : Bool :=
  if !a.isGlobalUnicast || a.isPrivate || a.isLoopback || a.isLinkLocalUnicast ||
      a.isLinkLocalMulticast || a.isMulticast || a.isUnspecified then false
  else !nonPublicSpecialUse.any fun p => p.contains a

structure IPAddr where
  ip : List UInt8
  zone : String
deriving DecidableEq, Repr

def bytesValue (bytes : List UInt8) : ℕ := bytes.foldl (fun n b => n * 256 + b.toNat) 0

def addrFromSlice (ip : List UInt8) : Option Addr :=
  if ip.length = 4 then some (.v4 (bytesValue ip))
  else if ip.length = 16 then some (.v6 (bytesValue ip) "")
  else none

example : isPublicIP (.v4 0x08080808#32) = true := by decide

example : isPublicIP (Addr.unmap (.v6 0xffff0a000001#128 "")) = false := by decide

end Orkano.Operator.GitResolver
