import Trawl.Bytes
import Trawl.Timestamp

/-!
# Captured records

A record is what a source hands over: the bytes captured off a link, and what is known about them.
-/

namespace Trawl

/-- One captured link-layer record. -/
structure Record where
  /-- When it was captured, if that is known. -/
  time : Option Timestamp
  /-- What kind of link it was captured on. -/
  linkType : Int
  /-- The captured bytes. -/
  data : Bytes
  /-- The length on the wire that the source states. -/
  wireLength : UInt32
  /-- The interface it was captured on. -/
  interface : UInt32
  deriving DecidableEq, Repr

/-- Ethernet links. -/
def linkEthernet : Int := 1

/-- Links whose records are bare IP packets. -/
def linkRawIP : Int := 101

/-- A record cut to a snapshot length. The stated wire length stays as it is. -/
def Record.clamp (snapshotLength : Nat) (r : Record) : Record :=
  { r with data := r.data.take snapshotLength }

end Trawl
