import Trawl.Bytes

/-!
# Decimal numbers as doubles

A number is written in decimal digits with a power of ten. The double it stands for is found in two
roundings: the digits are cut to a significand of 64 bits, which is rounded to a double and then
multiplied by the double nearest to the power. So a number just below the range of doubles can
be out of range, and digits that do not fit the significand do not count.
-/

namespace Trawl.Json

/-- A significand and the power of ten that it is multiplied by. -/
structure Decimal where
  significand : Nat
  exponent : Int
  deriving DecidableEq, Repr

namespace Decimal

/-- What significands stay below. -/
def significandBound : Nat := 1 <<< 64

/-- The value of a digit. -/
def digitValue (b : UInt8) : Nat :=
  b.toNat - 0x30

/-- The significand with one more digit, where it fits. -/
def append? (significand : Nat) (digit : UInt8) : Option Nat :=
  let longer := significand * 10 + digitValue digit
  if longer < significandBound then some longer else none

/-- Takes in a digit before the point. The first one that does not fit and all after it only count
in the exponent. -/
def appendWhole (d : Decimal) (digit : UInt8) : Decimal :=
  match if d.exponent = 0 then append? d.significand digit else none with
  | some significand => { d with significand }
  | none => { d with exponent := d.exponent + 1 }

/-- Takes in the digits after the point, up to the first one that does not fit. -/
def appendFraction : Decimal → Bytes → Decimal
  | d, [] => d
  | d, digit :: digits =>
    match append? d.significand digit with
    | some significand => appendFraction ⟨significand, d.exponent - 1⟩ digits
    | none => d

/-- The number of some digits before and after the point, times a power of ten. -/
def ofDigits (whole fraction : Bytes) (power : Int) : Decimal :=
  let d := (whole.foldl appendWhole ⟨0, 0⟩).appendFraction fraction
  { d with exponent := d.exponent + power }

/-- The nearest number of at most 53 significant bits; of two equally near, the one whose last bit is
zero. -/
def toPrecision (n : Nat) : Nat :=
  let shift := n.log2 - 52
  let unit := 1 <<< shift
  let cut := n / unit
  let beyond := 2 * (n % unit)
  (if beyond < unit ∨ beyond = unit ∧ cut % 2 = 0 then cut else cut + 1) * unit

/-- The greatest power of ten that is a double. -/
def greatestPower : Nat := 308

/-- Whether the double that a number stands for is beyond all finite ones. -/
def isOutOfRange (d : Decimal) : Bool :=
  match d.exponent with
  | .negSucc _ => false
  | .ofNat exponent =>
    if d.significand = 0 then false
    else if greatestPower < exponent then true
    else
      1 <<< 1024 ≤
        toPrecision (toPrecision d.significand * toPrecision (Nat.pow 10 exponent))

end Decimal

end Trawl.Json
