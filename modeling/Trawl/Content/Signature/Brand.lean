import Trawl.Bytes

/-!
# Brands of media files

Files in the ISO base media format start with a box that names the brand they are made for and the
brands they can be read as.
-/

namespace Trawl.Content.Brand

/-- The groups of four bytes that a byte string starts with; an incomplete one at the end is left
out. -/
def groups : Bytes → List Bytes
  | a :: b :: c :: d :: rest => [a, b, c, d] :: groups rest
  | _ => []

/-- The size of the box that names the brands. -/
def boxSize (b : Bytes) : Nat :=
  (b.field 0 4).bigEndian

/-- Whether the bytes start with a whole box that names brands. -/
def isMedia (b : Bytes) : Bool :=
  b.longerThan 15 && b.has 4 (.ofText "ftyp") && (boxSize b = 0 || b.longerThan (boxSize b - 1))

/-- The brand that a file is made for. -/
def major (b : Bytes) : Bytes :=
  b.field 8 4

/-- The brands that a file can be read as. -/
def compatible (b : Bytes) : List Bytes :=
  groups (b.field 16 (4 * (boxSize b / 4 - 4)))

/-- Whether the bytes are a still image in the HEIF format. -/
def isHeif (b : Bytes) : Bool :=
  isMedia b &&
    (major b = .ofText "heic" ||
      ([Bytes.ofText "mif1", .ofText "msf1"].contains (major b) &&
        (compatible b).contains (.ofText "heic")))

/-- Whether the bytes are a still image in the AVIF format. -/
def isAvif (b : Bytes) : Bool :=
  isMedia b &&
    (major b :: compatible b).any fun brand => [Bytes.ofText "avif", .ofText "avis"].contains brand

/-- The brands of files in the MP4 format. -/
def mp4Brands : List Bytes :=
  ["avc1", "dash", "iso2", "iso3", "iso4", "iso5", "iso6", "isom", "mmp4", "mp41", "mp42", "mp4v",
    "mp71", "MSNV", "NDAS", "NDSC", "NSDC", "NDSH", "NDSM", "NDSP", "NDSS", "NDXC", "NDXH", "NDXM",
    "NDXP", "NDXS", "F4V ", "F4P "].map .ofText

/-- Whether the bytes are a film in the MP4 format. -/
def isMp4 (b : Bytes) : Bool :=
  b.has 4 (.ofText "ftyp") && b.longerThan 11 && mp4Brands.contains (major b)

end Trawl.Content.Brand
