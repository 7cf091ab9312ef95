import Trawl.Bytes

/-!
# Network addresses

The addresses that frames carry, with the text each is shown as: a hardware address in hexadecimal,
IPv4 in dotted decimal, IPv6 in the canonical form of RFC 5952.
-/

namespace Trawl

/-- A number in hexadecimal, lower case, without leading zeros. -/
def hexText (n : Nat) : String :=
  String.ofList (Nat.toDigits 16 n)

/-- An octet in hexadecimal, always two digits. -/
def octetText (b : UInt8) : String :=
  String.ofList [Nat.digitChar (b.toNat / 16), Nat.digitChar (b.toNat % 16)]

/-- A hardware address as it is shown: octets in hexadecimal, separated by colons. -/
def hardwareText (b : Bytes) : String :=
  ":".intercalate (b.map octetText)

/-- An IPv4 address. -/
structure IPv4 where
  value : UInt32
  deriving DecidableEq, Hashable, Repr, Inhabited

namespace IPv4

/-- The address whose four octets these are. -/
def ofBytes (b : Bytes) : IPv4 :=
  ⟨UInt32.ofNat b.bigEndian⟩

/-- The octet that `shift` bits follow. -/
def octetAt (a : IPv4) (shift : Nat) : Nat :=
  a.value.toNat >>> shift % 256

/-- Dotted decimal. -/
def toText (a : IPv4) : String :=
  ".".intercalate ([24, 16, 8, 0].map fun shift => toString (a.octetAt shift))

end IPv4

/-- An IPv6 address. -/
structure IPv6 where
  value : BitVec 128
  deriving DecidableEq, Hashable, Repr, Inhabited

namespace IPv6

/-- The address whose sixteen octets these are. -/
def ofBytes (b : Bytes) : IPv6 :=
  ⟨BitVec.ofNat 128 b.bigEndian⟩

/-- The eight groups of sixteen bits, most significant first. -/
def groups (a : IPv6) : List Nat :=
  [112, 96, 80, 64, 48, 32, 16, 0].map fun shift => a.value.toNat >>> shift % 65536

/-- A run of zero groups: where it starts and how long it is. -/
structure ZeroRun where
  start : Nat
  length : Nat

/-- The longest run of zero groups, the first of those equally long. `current` is the run that ends
just before group `index`, `longest` the longest so far. -/
def longestZeros (index : Nat) (current longest : ZeroRun) : List Nat → ZeroRun
  | [] => longest
  | g :: rest =>
    if g = 0 then
      let current := ⟨if current.length = 0 then index else current.start, current.length + 1⟩
      longestZeros (index + 1) current (if longest.length < current.length then current else longest)
        rest
    else longestZeros (index + 1) ⟨0, 0⟩ longest rest

/-- Groups in hexadecimal, separated by colons. -/
def groupsText (groups : List Nat) : String :=
  ":".intercalate (groups.map hexText)

/-- The canonical text: the longest run of two or more zero groups is written `::`, and an address
that maps an IPv4 address ends in that address. -/
def toText (a : IPv6) : String :=
  let groups := a.groups
  if groups.take 6 = [0, 0, 0, 0, 0, 0xFFFF] then
    "::ffff:" ++ (IPv4.mk (UInt32.ofNat a.value.toNat)).toText
  else
    let zeros := longestZeros 0 ⟨0, 0⟩ ⟨0, 0⟩ groups
    if 1 < zeros.length then
      groupsText (groups.take zeros.start) ++ "::" ++
        groupsText (groups.drop (zeros.start + zeros.length))
    else groupsText groups

end IPv6

/-- An Internet address of either version. -/
inductive IPAddress where
  | v4 (address : IPv4)
  | v6 (address : IPv6)
  deriving DecidableEq, Hashable, Repr

/-- The text of an Internet address. -/
def IPAddress.toText : IPAddress → String
  | .v4 a => a.toText
  | .v6 a => a.toText

/-- One end of a transport connection. An IPv6 end carries a flow label and a scope besides. -/
inductive Endpoint where
  | v4 (address : IPv4) (port : UInt16)
  | v6 (address : IPv6) (port : UInt16) (flowLabel scope : UInt32)
  deriving DecidableEq, Hashable, Repr

namespace Endpoint

/-- The end at a port of an address, with no flow label and no scope. -/
def ofAddress : IPAddress → UInt16 → Endpoint
  | .v4 a, port => .v4 a port
  | .v6 a, port => .v6 a port 0 0

/-- The address of an end. -/
def address : Endpoint → IPAddress
  | .v4 a _ => .v4 a
  | .v6 a _ _ _ => .v6 a

/-- The port of an end. -/
def port : Endpoint → UInt16
  | .v4 _ p => p
  | .v6 _ p _ _ => p

/-- A number that orders ends: IPv4 before IPv6, then by address, port, flow label and scope. -/
def rank : Endpoint → Nat
  | .v4 a p => a.value.toNat * 0x10000 + p.toNat
  | .v6 a p label scope =>
    0x1000000000000 +
      ((a.value.toNat * 0x10000 + p.toNat) * 0x100000000 + label.toNat) * 0x100000000 + scope.toNat

instance : LE Endpoint := ⟨fun a b => a.rank ≤ b.rank⟩

instance (a b : Endpoint) : Decidable (a ≤ b) :=
  inferInstanceAs (Decidable (a.rank ≤ b.rank))

/-- Address and port, an IPv6 address in brackets and with its scope unless that is zero. -/
def toText : Endpoint → String
  | .v4 a p => a.toText ++ ":" ++ toString p.toNat
  | .v6 a p _ scope =>
    "[" ++ a.toText ++ (if scope = 0 then "" else "%" ++ toString scope.toNat) ++ "]:" ++
      toString p.toNat

end Endpoint

end Trawl
