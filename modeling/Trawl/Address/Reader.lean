import Trawl.Address

/-!
# Reading addresses

The inverse of the texts that addresses are shown as, accepting every spelling of an IPv6 address,
not only the canonical one.
-/

namespace Trawl

/-- A decimal number below `bound`. -/
def decimal? (bound : Nat) (cs : List Char) : Option Nat :=
  if cs.isEmpty || !cs.all Char.isDigit then none
  else
    let n := cs.foldl (fun n c => n * 10 + (c.toNat - 48)) 0
    if n < bound then some n else none

/-- The value of a hexadecimal digit. -/
def hexDigit? (c : Char) : Option Nat :=
  if c.isDigit then some (c.toNat - 48)
  else if 'a' ≤ c && c ≤ 'f' then some (c.toNat - 87)
  else if 'A' ≤ c && c ≤ 'F' then some (c.toNat - 55)
  else none

/-- A group of an IPv6 address: one to four hexadecimal digits. -/
def group? (cs : List Char) : Option Nat :=
  if cs.isEmpty || 4 < cs.length then none
  else cs.foldl (fun n c => do return (← n) * 16 + (← hexDigit? c)) (some 0)

/-- The pieces of a text between the occurrences of a separator. -/
def pieces (separator : Char) (cs : List Char) : List (List Char) :=
  cs.foldr (fun c done =>
    if c = separator then [] :: done
    else match done with
      | [] => [[c]]
      | piece :: more => (c :: piece) :: more) [[]]

/-- An IPv4 address in dotted decimal. -/
def IPv4.parse? (cs : List Char) : Option IPv4 :=
  match (pieces '.' cs).mapM (decimal? 256) with
  | some [a, b, c, d] => some ⟨UInt32.ofNat (((a * 256 + b) * 256 + c) * 256 + d)⟩
  | _ => none

/-- Groups between colons; the last piece may be an IPv4 address, which counts as two groups. -/
def groups? : List (List Char) → Option (List Nat)
  | [] => some []
  | [piece] =>
    if piece.contains '.' then do
      let a ← IPv4.parse? piece
      return [a.value.toNat / 65536, a.value.toNat % 65536]
    else do return [← group? piece]
  | piece :: more => do return (← group? piece) :: (← groups? more)

/-- The groups on one side of a `::`, none where that side is empty. -/
def side? (cs : List Char) : Option (List Nat) :=
  if cs.isEmpty then some [] else groups? (pieces ':' cs)

/-- The texts on the two sides of the first `::`. -/
def splitDouble? : (before : List Char) → List Char → Option (List Char × List Char)
  | before, ':' :: ':' :: after => some (before.reverse, after)
  | before, c :: rest => splitDouble? (c :: before) rest
  | _, [] => none

/-- An IPv6 address: eight groups, or fewer with one `::` in place of the missing zeros. -/
def IPv6.parse? (cs : List Char) : Option IPv6 := do
  let groups ← match splitDouble? [] cs with
    | none => groups? (pieces ':' cs)
    | some (before, after) =>
      let left ← side? before
      let right ← side? after
      if 7 < left.length + right.length then none
      else some (left ++ List.replicate (8 - left.length - right.length) 0 ++ right)
  if groups.length = 8 then
    return ⟨BitVec.ofNat 128 (groups.foldl (fun n g => n * 65536 + g) 0)⟩
  else none

/-- An address of either version. -/
def IPAddress.parse? (text : String) : Option IPAddress :=
  match IPv4.parse? text.toList with
  | some a => some (.v4 a)
  | none => (IPv6.parse? text.toList).map .v6

/-- One end of a connection: `address:port`, or `[address%scope]:port` with an optional scope. -/
def Endpoint.parse? (text : String) : Option Endpoint :=
  match text.toList with
  | '[' :: rest => do
    let inner := rest.takeWhile (· ≠ ']')
    let address ← IPv6.parse? (inner.takeWhile (· ≠ '%'))
    let scope ← match inner.dropWhile (· ≠ '%') with
      | _ :: digits => decimal? 0x100000000 digits
      | [] => some 0
    match rest.dropWhile (· ≠ ']') with
    | ']' :: ':' :: digits =>
      let port ← decimal? 65536 digits
      return .v6 address (UInt16.ofNat port) 0 (UInt32.ofNat scope)
    | _ => none
  | cs => do
    let address ← IPv4.parse? (cs.takeWhile (· ≠ ':'))
    match cs.dropWhile (· ≠ ':') with
    | ':' :: digits =>
      let port ← decimal? 65536 digits
      return .v4 address (UInt16.ofNat port)
    | _ => none

end Trawl
