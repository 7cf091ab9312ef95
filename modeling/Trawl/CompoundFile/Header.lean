import Trawl.CompoundFile.Sector

/-!
# Headers

The header of a compound file tells the size of its sectors and where its parts start: the allocation
table, whose sectors are listed, and the chains of the directory and of the table for small sectors.
-/

namespace Trawl.CompoundFile

/-- What a compound file starts with. -/
def mark : Bytes := [0xD0, 0xCF, 0x11, 0xE0, 0xA1, 0xB1, 0x1A, 0xE1]

/-- The versions of the format. -/
inductive Version where
  | three
  | four
  deriving DecidableEq, Repr

/-- The version of a number. -/
def Version.ofNumber? : Nat → Option Version
  | 3 => some .three
  | 4 => some .four
  | _ => none

/-- The size of sectors as a power of two. -/
def Version.sectorShift : Version → Nat
  | .three => 9
  | .four => 12

/-- The size of sectors. -/
def Version.sectorSize (version : Version) : Nat :=
  1 <<< version.sectorShift

/-- The size of small sectors as a power of two. -/
def smallSectorShift : Nat := 6

/-- The size of small sectors. -/
def smallSectorSize : Nat := 1 <<< smallSectorShift

/-- The least size of a stream that is not kept in small sectors. -/
def smallStreamBound : Nat := 4096

/-- What a header says. -/
structure Header where
  version : Version
  /-- How many sectors the allocation table takes up. -/
  tableLength : Nat
  /-- The first sectors of the allocation table. -/
  table : List Nat
  /-- The chain that lists further sectors of the allocation table, and its length. -/
  listStart : Nat
  listLength : Nat
  /-- The chain of the directory. -/
  directoryStart : Nat
  /-- The chain of the table for small sectors, and its length. -/
  smallTableStart : Nat
  smallTableLength : Nat
  deriving DecidableEq, Repr

namespace Header

/-- The size of a header. -/
def size : Nat := 512

/-- How many sectors of the allocation table a header can list. -/
def tableCapacity : Nat := 109

/-- The byte order, which is always the same. -/
def orderMark : Bytes := [0xFE, 0xFF]

/-- The sectors of the allocation table that a header lists, up to the first unused place; the places
from there on are unused too. -/
def table? (listed : List Nat) : Option (List Nat) :=
  let used := listed.takeWhile (· ≠ Sector.free)
  if used.all (· ≤ Sector.greatest) then
    some (used ++ List.replicate (listed.length - used.length) Sector.free)
  else none

/-- The header of a file. -/
def ofBytes? (b : Bytes) : Option Header := do
  let (header, _) ← b.split? size
  let number (offset width : Nat) : Nat := (header.field offset width).littleEndian
  let version ← Version.ofNumber? (number 26 2)
  if header.has 0 mark ∧ header.has 28 orderMark ∧ number 30 2 = version.sectorShift ∧
      number 32 2 = smallSectorShift ∧ number 56 4 = smallStreamBound then
    let table ← table? (numbers (header.field 76 (4 * tableCapacity)))
    let listStart := number 68 4
    return {
      version
      tableLength := number 44 4
      table
      listStart := if listStart = Sector.free then Sector.endOfChain else listStart
      listLength := number 72 4
      directoryStart := number 48 4
      smallTableStart := number 60 4
      smallTableLength := number 64 4 }
  else none

end Header

end Trawl.CompoundFile
