import Trawl.CompoundFile.Root

/-!
# Office documents in compound files

The class that the root of a compound file names tells what kind of document the file is.
-/

namespace Trawl.Content.CompoundDocument

/-- The end of a class of the first office documents, after four octets of its own. -/
def officeClass (own : Bytes) : Bytes :=
  own ++ [0x00, 0x00, 0x00, 0x00, 0xC0, 0x00, 0x00, 0x00, 0x00, 0x00, 0x00, 0x46]

/-- The classes of text documents. -/
def textClasses : List Bytes :=
  [officeClass [0x06, 0x09, 0x02, 0x00]]

/-- The classes of spreadsheets. -/
def spreadsheetClasses : List Bytes :=
  [officeClass [0x10, 0x08, 0x02, 0x00], officeClass [0x20, 0x08, 0x02, 0x00]]

/-- The classes of presentations. -/
def presentationClasses : List Bytes :=
  [[0x10, 0x8D, 0x81, 0x64, 0x9B, 0x4F, 0xCF, 0x11, 0x86, 0xEA, 0x00, 0xAA, 0x00, 0xB9, 0x29, 0xE8]]

/-- Whether a file is a compound file with a root of one of several classes. -/
def hasClass (b : Bytes) (classes : List Bytes) : Bool :=
  match CompoundFile.root? b with
  | none => false
  | some root => classes.contains root.classId

end Trawl.Content.CompoundDocument
