import Trawl.CompoundFile.Allocation
import Trawl.CompoundFile.Directory

/-!
# Roots of compound files

A compound file is only taken for one if all its parts fit together: the allocation table, the
directory, and the table for small sectors, which tells how the bytes of the root are divided into
chains. The class that the root names tells what kind of document the file is.
-/

namespace Trawl.CompoundFile

/-- Whether the table for small sectors is sound: it has the length that the header states and no more
entries than the root has small sectors, and its chains neither leave it nor meet. -/
def smallTableFits (header : Header) (root : Entry) (held : List Bytes) : Bool :=
  let entries := trimEnd Sector.free (held.map numbers).flatten
  held.length = header.smallTableLength && entries.length ≤ root.size / smallSectorSize &&
    isSeparate entries

/-- The root of a file, where the file is a compound file. -/
def root? (b : Bytes) : Option Entry := do
  let header ← Header.ofBytes? b
  let sectors : Sectors := ⟨header.version.sectorSize, b.toArray⟩
  if sectors.file.size < sectors.size then none
  else
    let allocation ← Allocation.read? header sectors
    let held ← allocation.chain? sectors header.directoryStart
    let directory ← Directory.ofSectors? header.version held
    let root ← directory.root?
    let small ← allocation.chain? sectors header.smallTableStart
    if smallTableFits header root small then some root else none

end Trawl.CompoundFile
