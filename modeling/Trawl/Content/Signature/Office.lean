import Trawl.Bytes

/-!
# Office documents in zip archives

Such a document is told from other archives by the names of its first entries: the directory of its
main part, or one of the names that such archives start with and then that directory in the third and
fourth entries.
-/

namespace Trawl.Content.Office

/-- The kinds of documents. -/
inductive Kind where
  | text
  | presentation
  | spreadsheet
  deriving DecidableEq, Repr

/-- What an entry of an archive starts with. -/
def entryMark : Bytes := [0x50, 0x4B, 0x03, 0x04]

/-- Where the name of an entry stands, from the start of the entry. -/
def nameOffset : Nat := 30

/-- The kind of document with a main part of the name that stands at an offset. -/
def kindAt? (b : Bytes) (offset : Nat) : Option Kind :=
  if b.has offset (.ofText "word/") then some .text
  else if b.has offset (.ofText "ppt/") then some .presentation
  else if b.has offset (.ofText "xl/") then some .spreadsheet
  else none

/-- How far into the bytes the mark of an entry stands first. -/
def findMark? (index : Nat) : Bytes → Option Nat
  | [] => none
  | b :: rest =>
    if entryMark.isPrefixOf (b :: rest) then some index else findMark? (index + 1) rest

/-- How many bytes the next entry is looked for in. -/
def searchWindow : Nat := 6000

/-- Where the name of the next entry after an offset stands. -/
def nextName? (b : Bytes) (offset : Nat) : Option Nat :=
  (findMark? 0 (b.field offset searchWindow)).map fun index => offset + index + nameOffset

/-- Whether an archive starts with an entry that office documents start with. -/
def hasLeadEntry (b : Bytes) : Bool :=
  ["[Content_Types].xml", "_rels/.rels", "docProps"].any fun name =>
    b.has nameOffset (.ofText name)

/-- The kind of an office document. -/
def kind? (b : Bytes) : Option Kind :=
  if !b.has 0 entryMark then none
  else
    match kindAt? b nameOffset with
    | some kind => some kind
    | none =>
      if !hasLeadEntry b then none
      else do
        let second ← nextName? b ((b.field 18 4).littleEndian + 49)
        let third ← nextName? b second
        let _ ← kindAt? b third
        let fourth ← nextName? b (third + 26)
        kindAt? b fourth

end Trawl.Content.Office
