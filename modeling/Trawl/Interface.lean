import Trawl.Address

/-!
# Network interfaces

What capturing needs to know about the interfaces of a machine: how they are named and which
addresses they own. The list of them is always a parameter.
-/

namespace Trawl

/-- A network interface. -/
structure Interface where
  name : String
  addresses : List IPAddress
  deriving DecidableEq, Repr

namespace Interface

/-- The interface of a name. -/
def named? (name : String) (interfaces : List Interface) : Option Interface :=
  interfaces.find? (·.name = name)

/-- The name of the interface that owns an address. -/
def nameOwning? (address : IPAddress) (interfaces : List Interface) : Option String :=
  (interfaces.find? (·.addresses.contains address)).map (·.name)

end Interface

end Trawl
