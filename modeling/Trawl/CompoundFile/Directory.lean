import Trawl.CompoundFile.Header
import Trawl.Text.UpperCase
import Trawl.Text.Utf16

/-!
# Directories

The directory of a compound file is a list of entries for streams and for storages, which hold others.
Entries lead to each other by their places: each storage leads to one of its members, and the members
of a storage are a binary tree, ordered by name. The first entry is the root, which all others are
reached from.
-/

namespace Trawl.CompoundFile

/-- The kinds of entries of a directory. -/
inductive EntryKind where
  | unused
  | storage
  | stream
  | root
  deriving DecidableEq, Repr

/-- The kind of a number. -/
def EntryKind.ofNumber? : Nat → Option EntryKind
  | 0 => some .unused
  | 1 => some .storage
  | 2 => some .stream
  | 5 => some .root
  | _ => none

/-- An entry of a directory. -/
structure Entry where
  kind : EntryKind
  /-- How long the name is in 16-bit units. -/
  nameLength : Nat
  name : List Char
  /-- The places of entries in the same storage, one before and one after this one. -/
  left : Option Nat
  right : Option Nat
  /-- The place of an entry in this storage. -/
  child : Option Nat
  classId : Bytes
  /-- How many bytes the entry stands for. -/
  size : Nat
  deriving DecidableEq, Repr

namespace Entry

/-- The size of an entry. -/
def byteSize : Nat := 128

/-- Stands for no place. -/
def nowhere : Nat := 0xFFFFFFFF

/-- The greatest number that a place can have. -/
def greatestPlace : Nat := 0xFFFFFFFA

/-- The greatest size of a name in bytes, the two after it included. -/
def maxNameSize : Nat := 64

/-- The characters that names do not have, that of the root apart. -/
def reserved : List Char := ['/', '\\', ':', '!']

/-- The 16-bit units that a byte string holds. -/
def units : Bytes → List Nat
  | a :: b :: rest => Bytes.littleEndian [a, b] :: units rest
  | _ => []

/-- The place of a number, if it is one or stands for none. -/
def place? (n : Nat) : Option (Option Nat) :=
  if n = nowhere then some none else if n ≤ greatestPlace then some (some n) else none

/-- How many of the bytes of a size count. -/
def sizeBytes : Version → Nat
  | .three => 4
  | .four => 8

/-- The entry that some bytes are. The color of its node in the tree is one of two. -/
def ofBytes? (version : Version) (b : Bytes) : Option Entry := do
  let number (offset width : Nat) : Nat := (b.field offset width).littleEndian
  let nameSize := number 64 2
  let nameUnits := units (b.field 0 (nameSize - 2))
  let name ← Text.Utf16.decode? nameUnits
  let kind ← EntryKind.ofNumber? (number 66 1)
  let left ← place? (number 68 4)
  let right ← place? (number 72 4)
  let child ← place? (number 76 4)
  if nameSize ≤ maxNameSize ∧ nameSize % 2 = 0 ∧ number 67 1 ≤ 1 ∧
      (kind = .root ∨ !name.any reserved.contains) then
    return {
      kind, nameLength := nameUnits.length, name, left, right, child
      classId := b.field 80 16
      size := number 120 (sizeBytes version) }
  else none

/-- Whether an entry comes before another one in a storage: shorter names come first, and names of one
length are ordered in upper case. -/
def precedes (e f : Entry) : Bool :=
  e.nameLength < f.nameLength ||
    e.nameLength = f.nameLength &&
      decide (Text.toUpperCase e.name < Text.toUpperCase f.name)

/-- The places that an entry leads to. -/
def links (e : Entry) : List Nat :=
  e.left.toList ++ e.right.toList ++ e.child.toList

end Entry

/-- The entries of a directory. -/
structure Directory where
  entries : Array Entry

namespace Directory

/-- The directory that sectors hold. -/
def ofSectors? (version : Version) (held : List Bytes) : Option Directory := do
  let places := List.range (version.sectorSize / Entry.byteSize)
  let written (b : Bytes) : List Bytes :=
    places.map fun place => b.field (place * Entry.byteSize) Entry.byteSize
  let entries ← (held.flatMap written).mapM (Entry.ofBytes? version)
  return ⟨entries.toArray⟩

/-- Whether the entry at a place is of a kind that can stand there, and those beside it are in
order. -/
def isInOrder (d : Directory) (place : Nat) (e : Entry) : Bool :=
  let related (other : Option Nat) (fits : Entry → Bool) : Bool :=
    match other with
    | none => true
    | some n => (d.entries[n]?).any fits
  (if place = 0 then e.kind = .root else e.kind = .storage || e.kind = .stream) &&
    related e.left (·.precedes e) && related e.right (e.precedes ·)

/-- Whether the entries reached from the pending places are in order, and each of them is reached once
and among the remaining ones. -/
def isTree (d : Directory) (remaining pending : List Nat) : Bool :=
  match pending with
  | [] => true
  | place :: pending =>
    if _hm : place ∈ remaining then
      match d.entries[place]? with
      | none => false
      | some e => d.isInOrder place e && d.isTree (remaining.erase place) (e.links ++ pending)
    else false
termination_by remaining.length
decreasing_by
  have := List.length_erase_of_mem _hm
  have := List.length_pos_of_mem _hm
  omega

/-- The root, where the directory is sound. It stands for whole small sectors. -/
def root? (d : Directory) : Option Entry := do
  let root ← d.entries[0]?
  if root.size % smallSectorSize = 0 ∧ d.isTree (List.range d.entries.size) [0] then some root
  else none

end Directory

end Trawl.CompoundFile
