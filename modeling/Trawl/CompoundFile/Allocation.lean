import Trawl.CompoundFile.Header

/-!
# Allocation

The allocation table has an entry for each sector: the next sector of its chain, or what the sector is
used for. The table itself is kept in sectors, which the header lists and, where there are too many
for it, a chain of further sectors. A table is sound if it knows what these sectors are used for and
its chains neither leave it nor meet, so that a chain that does not end comes back to its start.
-/

namespace Trawl.CompoundFile

/-- Marks a sector as one that is led to, where it exists and was not marked before. -/
def markReached (reached : Array Bool) (sector : Nat) : Option (Array Bool) :=
  if reached[sector]? = some false then some (reached.setIfInBounds sector true) else none

/-- Whether the chains of a table neither leave it nor meet. -/
def isSeparate (entries : List Nat) : Bool :=
  let led := entries.filter (· ≤ Sector.greatest)
  (led.foldlM markReached (Array.replicate entries.length false)).isSome

/-- The table that tells which sectors belong together. -/
structure Allocation where
  entries : Array Nat

namespace Allocation

/-- What a sector of the list holds: its own number with the sectors of the table that it lists, and
the next sector of the list. -/
def listStep (sectors : Sectors) (sector : Nat) : Option ((Nat × List Nat) × Nat) := do
  let b ← sectors.read? sector
  let listed := numbers b
  let last ← listed.getLast?
  let table := listed.dropLast
  if table.all (fun entry => entry = Sector.free || entry ≤ Sector.greatest) then
    some ((sector, table), last)
  else none

/-- The entries of a table of whole sectors that count. Zeros beyond the number of sectors fill the
table up, and so do entries of unused sectors at its end. -/
def trim (count : Nat) (entries : List Nat) : List Nat :=
  trimEnd Sector.free (entries.take count ++ trimEnd 0 (entries.drop count))

/-- Whether the table says what the sectors of the list and of the table are used for, and is sound
otherwise. -/
def isSound (count : Nat) (list table entries : List Nat) : Bool :=
  let places := entries.toArray
  places.size ≤ count && list.all (places[·]? = some Sector.inList) &&
    table.all (places[·]? = some Sector.inTable) && isSeparate entries &&
    !entries.contains Sector.invalid

/-- The allocation table of a file. -/
def read? (header : Header) (sectors : Sectors) : Option Allocation := do
  let list ← follow (listStep sectors) sectors.count header.listStart
  let table := trimEnd Sector.free (header.table ++ (list.map (·.2)).flatten)
  if list.length = header.listLength ∧ table.length = header.tableLength then
    let held ← table.mapM sectors.read?
    let entries := trim sectors.count (held.map numbers).flatten
    if isSound sectors.count (list.map (·.1)) table entries then some ⟨entries.toArray⟩ else none
  else none

/-- What follows a sector in its chain. -/
def next? (allocation : Allocation) (sector : Nat) : Option Nat := do
  let next ← allocation.entries[sector]?
  if next = Sector.endOfChain ∨ next < allocation.entries.size then some next else none

/-- The bytes of the sectors of a chain. -/
def chain? (allocation : Allocation) (sectors : Sectors) (start : Nat) : Option (List Bytes) :=
  let step (sector : Nat) : Option (Bytes × Nat) := do
    let b ← sectors.read? sector
    let next ← allocation.next? sector
    return (b, next)
  follow step sectors.count start

end Allocation

end Trawl.CompoundFile
