import Trawl.Bytes

/-!
# Sectors

A compound file is cut into sectors of one size. The first one is the header and has no number; the
others are numbered from zero. What belongs together is a chain of sectors, each of which leads to
the next by its number, and numbers greater than that of any sector end a chain or say what a sector
is used for.
-/

namespace Trawl.CompoundFile

namespace Sector

/-- The greatest number that a sector can have. -/
def greatest : Nat := 0xFFFFFFFA

/-- A number without a use. -/
def invalid : Nat := 0xFFFFFFFB

/-- Stands for a sector that lists the sectors of the allocation table. -/
def inList : Nat := 0xFFFFFFFC

/-- Stands for a sector of the allocation table. -/
def inTable : Nat := 0xFFFFFFFD

/-- Follows the last sector of a chain. -/
def endOfChain : Nat := 0xFFFFFFFE

/-- Stands for a sector that is not used. -/
def free : Nat := 0xFFFFFFFF

end Sector

/-- The numbers of four bytes that a byte string holds. -/
def numbers : Bytes → List Nat
  | a :: b :: c :: d :: rest => Bytes.littleEndian [a, b, c, d] :: numbers rest
  | _ => []

/-- A list without the occurrences of a value at its end. -/
def trimEnd (value : Nat) (entries : List Nat) : List Nat :=
  (entries.reverse.dropWhile (· = value)).reverse

/-- A file that is cut into sectors. -/
structure Sectors where
  size : Nat
  file : Array UInt8

namespace Sectors

/-- How many sectors there are, a last one that is cut off included. -/
def count (sectors : Sectors) : Nat :=
  (sectors.file.size + sectors.size - 1) / sectors.size - 1

/-- The bytes of a sector, where the file holds all of them. -/
def read? (sectors : Sectors) (sector : Nat) : Option Bytes :=
  let start := (sector + 1) * sectors.size
  let next := start + sectors.size
  if next ≤ sectors.file.size then some (sectors.file.extract start next).toList else none

end Sectors

/-- What the sectors of a chain hold, where `step` tells what one holds and what follows it. A chain
of at most `bound` sectors that does not end runs in a circle, which is refused. -/
def follow {α : Type} (step : Nat → Option (α × Nat)) :
    (bound : Nat) → (sector : Nat) → Option (List α)
  | 0, sector => if sector = Sector.endOfChain then some [] else none
  | bound + 1, sector =>
    if sector = Sector.endOfChain then some []
    else
      match step sector with
      | none => none
      | some (held, next) => (follow step bound next).map (held :: ·)

end Trawl.CompoundFile
