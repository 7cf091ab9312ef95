/-!
# UTF-16

Text as a sequence of 16-bit units. A character beyond the first 65536 is a pair of units, a leading
one and a trailing one, which have no meaning on their own.
-/

namespace Trawl.Text.Utf16

/-- Whether a unit is the first half of a pair. -/
def isLeading (unit : Nat) : Bool :=
  0xD800 ≤ unit && unit ≤ 0xDBFF

/-- Whether a unit is the second half of a pair. -/
def isTrailing (unit : Nat) : Bool :=
  0xDC00 ≤ unit && unit ≤ 0xDFFF

/-- The scalar value that a pair stands for. -/
def pairValue (leading trailing : Nat) : Nat :=
  0x10000 + (leading - 0xD800) * 0x400 + (trailing - 0xDC00)

/-- The characters that units stand for, where none is half of a pair without the other. -/
def decode? : List Nat → Option (List Char)
  | [] => some []
  | [unit] => if isLeading unit || isTrailing unit then none else some [Char.ofNat unit]
  | unit :: next :: units =>
    if isTrailing unit then none
    else if isLeading unit then
      if isTrailing next then (decode? units).map (Char.ofNat (pairValue unit next) :: ·) else none
    else (decode? (next :: units)).map (Char.ofNat unit :: ·)

end Trawl.Text.Utf16
