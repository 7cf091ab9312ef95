import Trawl.Compression.Container
import Trawl.Content.Fault
import Trawl.Text.CharClass

/-!
# Declared properties

What is said about content from outside: how it is compressed and what its media type is. Both are
declared as header values are written; an encoding that is not known counts as none, and so does a
media type without the form of one.
-/

namespace Trawl.Content

namespace Compressed

/-- The encoding of a declared name; capital and small letters are the same, and white space around
the name does not count. -/
def ofDeclared? (name : String) : Option Compressed :=
  let name := String.ofList ((Text.trim name.toList).map Char.toLower)
  if name = "gzip" ∨ name = "x-gzip" then some .gzip
  else if name = "deflate" then some .deflate
  else none

/-- Undoes an encoding. What is called deflated comes in a zlib wrapper or, failing that, bare. -/
def decode (limit : Nat) (b : Bytes) : Compressed → Except Compression.Failure Bytes
  | .gzip => Compression.Gzip.decode limit b
  | .deflate =>
    match Compression.inflateWrapped limit b with
    | .error .corrupt => Compression.inflateBare limit b
    | result => result

theorem length_decode {limit : Nat} {b data : Bytes} {encoding : Compressed}
    (h : encoding.decode limit b = .ok data) : data.length ≤ limit := by
  cases encoding with
  | gzip => exact Compression.Gzip.length_decode h
  | deflate =>
    unfold decode at h
    dsimp only at h
    split at h
    · exact Compression.length_inflateBare h
    · exact Compression.length_inflateWrapped h

end Compressed

namespace MediaType

/-- A character of the two names in a media type. -/
def isNameChar (c : Char) : Bool :=
  c.isAlphanum || ['_', '.', '+', '-'].contains c

/-- The first media type in the characters, given the name characters just before them, the last one
first. -/
def find? (name : List Char) : List Char → Option (List Char)
  | [] => none
  | c :: rest =>
    if isNameChar c then find? (c :: name) rest
    else if c = '/' ∧ name ≠ [] ∧ (rest.head?.map isNameChar).getD false then
      some (name.reverse ++ '/' :: rest.takeWhile isNameChar)
    else find? [] rest

/-- The media type in a declared text, without parameters and as it is written. -/
def ofDeclared? (text : String) : Option String :=
  (find? [] text.toList).map .ofList

end MediaType

/-- What is declared about some content, as far as it is understood. -/
structure Declared where
  encoding : Option Compressed
  mediaType : Option String
  deriving DecidableEq, Repr

/-- What two declared texts say. -/
def Declared.ofTexts (encoding mediaType : Option String) : Declared :=
  ⟨encoding.bind Compressed.ofDeclared?, mediaType.bind MediaType.ofDeclared?⟩

/-- Nothing. -/
def Declared.nothing : Declared :=
  ⟨none, none⟩

end Trawl.Content
