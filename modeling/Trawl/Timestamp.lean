/-!
# Capture times

A record is stamped either with a double, in seconds since 1970, or with the counts that a capture
file holds: whole seconds and ticks of a fixed resolution. A stamp is shown as RFC 3339 text in UTC
with up to nine digits after the second.
-/

namespace Trawl

/-- The length of one tick of a capture file. -/
inductive Resolution where
  | micro
  | nano
  deriving DecidableEq, Repr

/-- The length of one tick, in seconds. -/
def Resolution.seconds : Resolution → Float
  | .micro => 1e-6
  | .nano => 1e-9

/-- Ticks in one second. -/
def Resolution.perSecond : Resolution → Nat
  | .micro => 1000000
  | .nano => 1000000000

/-- When a record was captured. -/
inductive Timestamp where
  /-- Seconds, as the bits of a double. -/
  | float (bits : UInt64)
  /-- Whole seconds and ticks beyond them. -/
  | counted (seconds : UInt32) (ticks : UInt64) (resolution : Resolution)
  deriving DecidableEq, Repr

namespace Timestamp

/-- The time in seconds, rounded to a double. -/
def toFloat : Timestamp → Float
  | .float bits => Float.ofBits bits
  | .counted seconds ticks resolution => seconds.toFloat + ticks.toFloat * resolution.seconds

/-- The bits of the time in seconds. -/
def bits : Timestamp → UInt64
  | .float bits => bits
  | t => t.toFloat.toBits

/-- The leading bit of the digits of a double, which is not written. -/
def hiddenBit : Nat := 0x10000000000000

/-- The integer part of a double given by its bits, toward zero; zero where it is not a number. An
infinity counts as a number beyond all finite ones. -/
def truncate (bits : UInt64) : Int :=
  let bits := bits.toNat
  let exponent := bits >>> 52 % 2048
  let fraction := bits % hiddenBit
  let magnitude : Nat :=
    if exponent = 0 then 0
    else if exponent = 2047 then if fraction = 0 then 1 <<< 1024 else 0
    else if 1075 ≤ exponent then (hiddenBit + fraction) <<< (exponent - 1075)
    else (hiddenBit + fraction) >>> (1075 - exponent)
  if bits >>> 63 = 0 then magnitude else -magnitude

/-- Nanoseconds since 1970: the double in seconds times 10⁹, without its fraction. -/
def nanoseconds (t : Timestamp) : Int :=
  truncate (t.toFloat * 1000000000.0).toBits

/-- Year, month and day of the day that is `days` days after 1970-01-01. Years are counted from
March in cycles of 400, each of 146097 days. -/
def civilDate (days : Int) : Int × Nat × Nat :=
  let shifted := days + 719468
  let cycle := shifted / 146097
  let dayOfCycle := (shifted % 146097).toNat
  let yearOfCycle :=
    (dayOfCycle - dayOfCycle / 1460 + dayOfCycle / 36524 - dayOfCycle / 146096) / 365
  let dayOfYear := dayOfCycle - (365 * yearOfCycle + yearOfCycle / 4 - yearOfCycle / 100)
  let monthFromMarch := (5 * dayOfYear + 2) / 153
  let day := dayOfYear - (153 * monthFromMarch + 2) / 5 + 1
  let month := if monthFromMarch < 10 then monthFromMarch + 3 else monthFromMarch - 9
  (yearOfCycle + cycle * 400 + (if month ≤ 2 then 1 else 0), month, day)

/-- A number in decimal with at least `width` digits. -/
def padded (width n : Nat) : String :=
  let digits := Nat.toDigits 10 n
  String.ofList (List.replicate (width - digits.length) '0' ++ digits)

/-- The fraction of a second: nothing where it is zero, else a point and its digits without
trailing zeros. -/
def fractionText (nanos : Nat) : String :=
  if nanos = 0 then ""
  else
    let digits := (padded 9 nanos).toList.reverse.dropWhile (· = '0')
    "." ++ String.ofList digits.reverse

/-- The time as RFC 3339 text, where its year has four digits. -/
def toText? (t : Timestamp) : Option String :=
  let nanos := t.nanoseconds
  let seconds := nanos / 1000000000
  let (year, month, day) := civilDate (seconds / 86400)
  let second := (seconds % 86400).toNat
  if 0 ≤ year ∧ year ≤ 9999 then
    some (padded 4 year.toNat ++ "-" ++ padded 2 month ++ "-" ++ padded 2 day ++ "T" ++
      padded 2 (second / 3600) ++ ":" ++ padded 2 (second / 60 % 60) ++ ":" ++
      padded 2 (second % 60) ++ fractionText (nanos % 1000000000).toNat ++ "Z")
  else none

end Timestamp

end Trawl
