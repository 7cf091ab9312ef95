import Trawl.Bytes

/-!
# Base64

Bytes as printable characters: three octets are four characters of six bits each, and one or two
octets at the end are filled up with `=`. The alphabet is the standard one of RFC 4648.
-/

namespace Trawl.Text.Base64

/-- The character for six bits. -/
def letter (n : Nat) : Char :=
  if n < 26 then Char.ofNat (0x41 + n)
  else if n < 52 then Char.ofNat (0x61 + (n - 26))
  else if n < 62 then Char.ofNat (0x30 + (n - 52))
  else if n = 62 then '+' else '/'

/-- The six bits that a character stands for. -/
def value? (c : Char) : Option Nat :=
  if 'A' ≤ c && c ≤ 'Z' then some (c.toNat - 0x41)
  else if 'a' ≤ c && c ≤ 'z' then some (c.toNat - 0x61 + 26)
  else if '0' ≤ c && c ≤ '9' then some (c.toNat - 0x30 + 52)
  else if c = '+' then some 62
  else if c = '/' then some 63
  else none

/-- The first character of a group, from its first octet. -/
def letter₀ (a : UInt8) : Char :=
  letter (a.toNat / 4)

/-- The second character of a group, from its first and second octet. -/
def letter₁ (a b : UInt8) : Char :=
  letter (a.toNat % 4 * 16 + b.toNat / 16)

/-- The third character of a group, from its second and third octet. -/
def letter₂ (b c : UInt8) : Char :=
  letter (b.toNat % 16 * 4 + c.toNat / 64)

/-- The last character of a group, from its third octet. -/
def letter₃ (c : UInt8) : Char :=
  letter (c.toNat % 64)

/-- The characters for bytes, after those that are done, which are last first. -/
def encodeOnto (done : List Char) : Bytes → List Char
  | [] => done.reverse
  | [a] => done.reverse ++ [letter₀ a, letter₁ a 0, '=', '=']
  | [a, b] => done.reverse ++ [letter₀ a, letter₁ a b, letter₂ b 0, '=']
  | a :: b :: c :: rest =>
    encodeOnto (letter₃ c :: letter₂ b c :: letter₁ a b :: letter₀ a :: done) rest

/-- The text for bytes. -/
def encode (b : Bytes) : String :=
  String.ofList (encodeOnto [] b)

/-- The octets of a group of four characters without filling. -/
def group? (p q r s : Char) : Option Bytes := do
  let p ← value? p
  let q ← value? q
  let r ← value? r
  let s ← value? s
  return [UInt8.ofNat (p * 4 + q / 16), UInt8.ofNat (q % 16 * 16 + r / 4),
    UInt8.ofNat (r % 4 * 64 + s)]

/-- The octets of the last group. Filled up places count as zero bits and give no octet. -/
def lastGroup? (p q r s : Char) : Option Bytes :=
  if r = '=' ∧ s = '=' then (group? p q 'A' 'A').map (·.take 1)
  else if s = '=' then (group? p q r 'A').map (·.take 2)
  else group? p q r s

/-- The bytes that characters stand for. -/
def decodeChars? : List Char → Option Bytes
  | [] => some []
  | [p, q, r, s] => lastGroup? p q r s
  | p :: q :: r :: s :: rest => do return (← group? p q r s) ++ (← decodeChars? rest)
  | _ => none

/-- The bytes that a text stands for. -/
def decode? (text : String) : Option Bytes :=
  decodeChars? text.toList

end Trawl.Text.Base64
