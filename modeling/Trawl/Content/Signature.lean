import Trawl.Content.Signature.Brand
import Trawl.Content.Signature.CompoundDocument
import Trawl.Content.Signature.Office

/-!
# Content signatures

The formats that are told by their first bytes. The signatures are tried in a fixed order and the
first that fits decides, so a format that contains another one's mark stands before it.
-/

namespace Trawl.Content

/-- A format and what its bytes look like. -/
structure Signature where
  /-- The media type of the format. -/
  kind : String
  fits : Bytes → Bool

namespace Signature

/-- The media type of gzip members. -/
def gzipKind : String := "application/gzip"

/-- Whether a text stands at an offset. -/
def hasText (b : Bytes) (offset : Nat) (text : String) : Bool :=
  b.has offset (.ofText text)

/-- Whether the bytes start with one of several marks. -/
def startsWithAny (b : Bytes) (marks : List Bytes) : Bool :=
  marks.any fun mark => b.has 0 mark

/-- Whether the bytes start like an entry of a zip archive whose name and content follow. -/
def hasEntry (b : Bytes) (text : String) : Bool :=
  b.has 0 Office.entryMark && hasText b Office.nameOffset text

/-- The mark that class files and fat object files share. -/
def classMark : Bytes := [0xCA, 0xFE, 0xBA, 0xBE]

/-- The least major version of a class file, and more than the number of parts of a fat object
file. -/
def firstClassVersion : Nat := 45

/-- Whether the bytes are a Dalvik executable. -/
def isDex (b : Bytes) : Bool :=
  hasText b 0 "dex\n" && b.longerThan 36 && b.octet 36 = 0x70

/-- Programs and the parts of programs. -/
def programs : List Signature := [
  ⟨"application/wasm", fun b => b.has 0 [0x00, 0x61, 0x73, 0x6D, 0x01, 0x00, 0x00, 0x00]⟩,
  ⟨"application/x-executable", fun b => b.has 0 [0x7F, 0x45, 0x4C, 0x46] && b.longerThan 52⟩,
  ⟨"application/vnd.microsoft.portable-executable", fun b => hasText b 0 "MZ"⟩,
  ⟨"application/java", fun b => b.has 0 classMark && b.longerThan 7 &&
    firstClassVersion ≤ (b.field 4 4).bigEndian && firstClassVersion ≤ (b.field 6 2).bigEndian⟩,
  ⟨"application/x-llvm", fun b => hasText b 0 "BC"⟩,
  ⟨"application/x-mach-binary", fun b =>
    startsWithAny b [[0xCF, 0xFA, 0xED, 0xFE], [0xCE, 0xFA, 0xED, 0xFE], [0xFE, 0xED, 0xFA, 0xCF],
      [0xFE, 0xED, 0xFA, 0xCE]] ||
    b.has 0 classMark && b.longerThan 7 && (b.field 4 4).bigEndian < firstClassVersion⟩,
  ⟨"application/vnd.android.dex", isDex⟩,
  ⟨"application/vnd.android.dey", fun b =>
    hasText b 0 "dey\n" && b.longerThan 100 && isDex (b.field 40 60)⟩,
  ⟨"application/x-x509-ca-cert", fun b => b.has 0 [0x30, 0x82] && b.longerThan 2⟩,
  ⟨"application/x-executable", fun b =>
    startsWithAny b [[0x64, 0x86], [0x4C, 0x01], [0x00, 0x02]] && b.longerThan 2⟩,
  ⟨"application/x-x509-ca-cert", fun b => hasText b 0 "-----BEGIN " && b.longerThan 11⟩]

/-- Electronic books. -/
def books : List Signature := [
  ⟨"application/epub+zip", fun b => hasEntry b "mimetypeapplication/epub+zip"⟩,
  ⟨"application/x-mobipocket-ebook", fun b => hasText b 60 "BOOKMOBI"⟩]

/-- The heads of images in the TIFF format, in either byte order. -/
def tiffHeads : List Bytes :=
  [[0x49, 0x49, 0x2A, 0x00], [0x4D, 0x4D, 0x00, 0x2A]]

/-- Images. -/
def images : List Signature := [
  ⟨"image/jpeg", fun b => b.has 0 [0xFF, 0xD8, 0xFF]⟩,
  ⟨"image/jp2", fun b => b.has 0
    [0x00, 0x00, 0x00, 0x0C, 0x6A, 0x50, 0x20, 0x20, 0x0D, 0x0A, 0x87, 0x0A, 0x00]⟩,
  ⟨"image/png", fun b => b.has 0 [0x89, 0x50, 0x4E, 0x47]⟩,
  ⟨"image/gif", fun b => hasText b 0 "GIF"⟩,
  ⟨"image/webp", fun b => hasText b 8 "WEBP"⟩,
  ⟨"image/x-canon-cr2", fun b =>
    startsWithAny b tiffHeads && b.longerThan 10 && b.has 8 [0x43, 0x52, 0x02]⟩,
  ⟨"image/tiff", fun b =>
    startsWithAny b tiffHeads && b.longerThan 9 && b.octet 8 ≠ 0x43 && b.octet 9 ≠ 0x52⟩,
  ⟨"image/bmp", fun b => hasText b 0 "BM"⟩,
  ⟨"image/vnd.ms-photo", fun b => b.has 0 [0x49, 0x49, 0xBC]⟩,
  ⟨"image/vnd.adobe.photoshop", fun b => hasText b 0 "8BPS"⟩,
  ⟨"image/vnd.microsoft.icon", fun b => b.has 0 [0x00, 0x00, 0x01, 0x00]⟩,
  ⟨"image/heif", Brand.isHeif⟩,
  ⟨"image/avif", Brand.isAvif⟩,
  ⟨"image/jxl", fun b =>
    b.has 0 [0xFF, 0x0A] && b.longerThan 2 ||
    b.has 0 [0x00, 0x00, 0x00, 0x0C, 0x4A, 0x58, 0x4C, 0x20, 0x0D, 0x0A, 0x87, 0x0A] &&
      b.longerThan 12⟩,
  ⟨"image/openraster", fun b => hasEntry b "mimetypeimage/openraster" && b.longerThan 57⟩,
  ⟨"image/vnd.djvu", fun b => hasText b 0 "AT&TFORM" && hasText b 12 "DJV"⟩]

/-- Films. -/
def films : List Signature := [
  ⟨"video/mp4", Brand.isMp4⟩,
  ⟨"video/x-m4v", fun b => hasText b 4 "ftypM4V"⟩,
  ⟨"video/x-matroska", fun b =>
    b.has 0 ([0x1A, 0x45, 0xDF, 0xA3, 0x93, 0x42, 0x82, 0x88] ++ Bytes.ofText "matroska") ||
    hasText b 31 "matroska"⟩,
  ⟨"video/webm", fun b => b.has 0 [0x1A, 0x45, 0xDF, 0xA3]⟩,
  ⟨"video/quicktime", fun b => b.longerThan 15 &&
    (hasText b 4 "ftypqt  " || hasText b 4 "moov" || hasText b 4 "mdat" || hasText b 12 "mdat")⟩,
  ⟨"video/x-msvideo", fun b => hasText b 0 "RIFF" && hasText b 8 "AVI"⟩,
  ⟨"video/x-ms-wmv", fun b =>
    b.has 0 [0x30, 0x26, 0xB2, 0x75, 0x8E, 0x66, 0xCF, 0x11, 0xA6, 0xD9]⟩,
  ⟨"video/mpeg", fun b =>
    b.has 0 [0x00, 0x00, 0x01] && b.longerThan 3 && b.octet 3 >>> 4 = 0x0B⟩,
  ⟨"video/x-flv", fun b => b.has 0 [0x46, 0x4C, 0x56, 0x01]⟩]

/-- Sound. -/
def sounds : List Signature := [
  ⟨"audio/midi", fun b => hasText b 0 "MThd"⟩,
  ⟨"audio/mpeg", fun b => (hasText b 0 "ID3" || b.has 0 [0xFF, 0xFB]) && b.longerThan 2⟩,
  ⟨"audio/m4a", fun b => b.longerThan 10 && (hasText b 4 "ftypM4A" || hasText b 0 "M4A ")⟩,
  ⟨"audio/opus", fun b => hasText b 0 "OggS" && hasText b 28 "OpusHead"⟩,
  ⟨"audio/ogg", fun b => hasText b 0 "OggS"⟩,
  ⟨"audio/x-flac", fun b => hasText b 0 "fLaC"⟩,
  ⟨"audio/x-wav", fun b => hasText b 0 "RIFF" && hasText b 8 "WAVE"⟩,
  ⟨"audio/amr", fun b => hasText b 0 "#!AMR\n" && b.longerThan 11⟩,
  ⟨"audio/aac", fun b => startsWithAny b [[0xFF, 0xF1], [0xFF, 0xF9]]⟩,
  ⟨"audio/x-aiff", fun b => hasText b 0 "FORM" && hasText b 8 "AIFF"⟩,
  ⟨"audio/x-dsf", fun b => hasText b 0 "DSD " && b.longerThan 4⟩,
  ⟨"audio/x-ape", fun b => hasText b 0 "MAC " && b.longerThan 4⟩]

/-- Fonts. -/
def fonts : List Signature := [
  ⟨"application/font-woff", fun b => (hasText b 0 "wOFF" || hasText b 0 "wOF2") &&
    b.has 4 [0x00, 0x01, 0x00, 0x00]⟩,
  ⟨"application/font-sfnt", fun b =>
    b.has 0 [0x00, 0x01, 0x00, 0x00, 0x00] || b.has 0 [0x4F, 0x54, 0x54, 0x4F, 0x00]⟩]

/-- Whether the bytes are an archive that holds an open document of a kind. -/
def isOpenDocument (b : Bytes) (kind : String) : Bool :=
  hasEntry b "mimetype" && hasText b 50 ("vnd.oasis.opendocument." ++ kind)

/-- Office documents. -/
def documents : List Signature := [
  ⟨"application/msword", fun b => CompoundDocument.hasClass b CompoundDocument.textClasses⟩,
  ⟨"application/vnd.openxmlformats-officedocument.wordprocessingml.document",
    fun b => Office.kind? b = some .text⟩,
  ⟨"application/vnd.ms-excel",
    fun b => CompoundDocument.hasClass b CompoundDocument.spreadsheetClasses⟩,
  ⟨"application/vnd.openxmlformats-officedocument.spreadsheetml.sheet",
    fun b => Office.kind? b = some .spreadsheet⟩,
  ⟨"application/vnd.ms-powerpoint",
    fun b => CompoundDocument.hasClass b CompoundDocument.presentationClasses⟩,
  ⟨"application/vnd.openxmlformats-officedocument.presentationml.presentation",
    fun b => Office.kind? b = some .presentation⟩,
  ⟨"application/vnd.oasis.opendocument.text", fun b => isOpenDocument b "text"⟩,
  ⟨"application/vnd.oasis.opendocument.spreadsheet", fun b => isOpenDocument b "spreadsheet"⟩,
  ⟨"application/vnd.oasis.opendocument.presentation", fun b => isOpenDocument b "presentation"⟩]

/-- Whether the bytes are compressed frames of the Zstandard format, whatever frames to be skipped
stand before the first of them. -/
def isZstandard (b : Bytes) : Bool :=
  if b.has 0 [0x28, 0xB5, 0x2F, 0xFD] then true
  else if (b.field 0 4).littleEndian / 16 = 0x184D2A5 then
    match _h : Bytes.split? 4 (b.drop 4) with
    | none => false
    | some (length, rest) =>
      if length.littleEndian ≤ rest.length then isZstandard (rest.drop length.littleEndian)
      else false
  else false
termination_by b.length
decreasing_by
  have hs := Bytes.split?_eq_some _h
  have hl := congrArg List.length hs.1
  simp only [List.length_drop, List.length_append] at hl ⊢
  omega

/-- Archives and other containers. -/
def archives : List Signature := [
  ⟨"application/zip", fun b => startsWithAny b [[0x50, 0x4B, 0x03, 0x04], [0x50, 0x4B, 0x05, 0x06],
    [0x50, 0x4B, 0x07, 0x08], [0x50, 0x4B, 0x30, 0x30, 0x50, 0x4B, 0x03, 0x04]]⟩,
  ⟨"application/x-tar", fun b => hasText b 257 "ustar"⟩,
  ⟨"application/vnd.rar", fun b => startsWithAny b
    [[0x52, 0x61, 0x72, 0x21, 0x1A, 0x07, 0x00], [0x52, 0x61, 0x72, 0x21, 0x1A, 0x07, 0x01]]⟩,
  ⟨gzipKind, fun b => b.has 0 [0x1F, 0x8B, 0x08]⟩,
  ⟨"application/x-bzip2", fun b => hasText b 0 "BZh"⟩,
  ⟨"application/x-7z-compressed", fun b => b.has 0 [0x37, 0x7A, 0xBC, 0xAF, 0x27, 0x1C]⟩,
  ⟨"application/x-xz", fun b => b.has 0 [0xFD, 0x37, 0x7A, 0x58, 0x5A, 0x00]⟩,
  ⟨"application/pdf", fun b => hasText b 0 "%PDF"⟩,
  ⟨"application/x-shockwave-flash", fun b => hasText b 0 "CWS" || hasText b 0 "FWS"⟩,
  ⟨"application/rtf", fun b => hasText b 0 "\x7b\\rtf"⟩,
  ⟨"application/octet-stream", fun b => b.longerThan 35 && hasText b 34 "LP" &&
    (b.has 8 [0x02, 0x00, 0x01] || b.has 8 [0x01, 0x00, 0x00] || b.has 8 [0x02, 0x00, 0x02])⟩,
  ⟨"application/postscript", fun b => hasText b 0 "%!"⟩,
  ⟨"application/vnd.sqlite3", fun b => hasText b 0 "SQLi"⟩,
  ⟨"application/x-nintendo-nes-rom", fun b => b.has 0 [0x4E, 0x45, 0x53, 0x1A]⟩,
  ⟨"application/x-google-chrome-extension", fun b => hasText b 0 "Cr24"⟩,
  ⟨"application/vnd.ms-cab-compressed", fun b => hasText b 0 "MSCF" || hasText b 0 "ISc("⟩,
  ⟨"application/vnd.debian.binary-package", fun b => hasText b 0 "!<arch>\ndebian-binary"⟩,
  ⟨"application/x-unix-archive", fun b => hasText b 0 "!<arch>"⟩,
  ⟨"application/x-compress", fun b => startsWithAny b [[0x1F, 0xA0], [0x1F, 0x9D]]⟩,
  ⟨"application/x-lzip", fun b => hasText b 0 "LZIP"⟩,
  ⟨"application/x-rpm", fun b => b.has 0 [0xED, 0xAB, 0xEE, 0xDB] && b.longerThan 96⟩,
  ⟨"application/dicom", fun b => hasText b 128 "DICM"⟩,
  ⟨"application/zstd", isZstandard⟩,
  ⟨"application/x-ole-storage", fun b => b.has 0 CompoundFile.mark⟩,
  ⟨"application/x-cpio", fun b => startsWithAny b [[0xC7, 0x71], [0x71, 0xC7]] ||
    hasText b 0 "070701" && b.longerThan 6⟩]

/-- A byte with an ASCII letter in lower case. -/
def lower (b : UInt8) : UInt8 :=
  if 0x41 ≤ b && b ≤ 0x5A then b + 0x20 else b

/-- Whether the bytes start with a text, capital and small letters of ASCII being the same. -/
def startsLike (b : Bytes) (text : String) : Bool :=
  ((Bytes.ofText text).map lower).isPrefixOf (b.map lower)

/-- The bytes after the blanks at their start. -/
def skipBlanks (b : Bytes) : Bytes :=
  b.dropWhile fun octet => [0x09, 0x0A, 0x0C, 0x0D, 0x20].contains octet

/-- The bytes after the byte-order marks at their start, as long as three bytes are left. -/
def skipOrderMarks : Bytes → Bytes
  | a :: b :: c :: rest =>
    if a = 0xEF ∧ b = 0xBB ∧ c = 0xBF then skipOrderMarks rest
    else if (a = 0xFE ∧ b = 0xFF) ∨ (a = 0xFF ∧ b = 0xFE) then skipOrderMarks (c :: rest)
    else a :: b :: c :: rest
  | b => b

/-- The tags that pages start with. -/
def pageTags : List String :=
  ["<!DOCTYPE HTML", "<HTML", "<HEAD", "<SCRIPT", "<IFRAME", "<H1", "<DIV", "<FONT", "<TABLE", "<A",
    "<STYLE", "<TITLE", "<B", "<BODY", "<BR", "<P", "<!--"]

/-- The longest start of a text that is looked at for a tag. -/
def tagWindow : Nat := 16

/-- Whether the bytes start with a tag that pages start with, up to a blank or its end. -/
def isPage (b : Bytes) : Bool :=
  let start : Bytes := (skipBlanks b).take tagWindow
  pageTags.any fun tag =>
    startsLike start tag &&
      (start.has tag.utf8ByteSize [0x20] || start.has tag.utf8ByteSize [0x3E])

/-- Texts in languages of markup and of commands. -/
def texts : List Signature := [
  ⟨"text/html", isPage⟩,
  ⟨"text/xml", fun b => startsLike ((skipOrderMarks (skipBlanks b)).take tagWindow) "<?xml"⟩,
  ⟨"text/x-shellscript", fun b => hasText b 0 "#!" && b.longerThan 2⟩]

/-- All signatures, in the order in which they are tried. -/
def all : List Signature :=
  programs ++ books ++ images ++ films ++ sounds ++ fonts ++ documents ++ archives ++ texts

/-- The media type of the first signature that fits. -/
def recognize? (b : Bytes) : Option String :=
  (all.find? (·.fits b)).map (·.kind)

end Signature

end Trawl.Content
