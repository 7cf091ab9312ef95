import Trawl.Text.CharClass
import Trawl.Text.Utf8

/-!
# Start lines

Whether bytes look like an HTTP message is told by a request line or a status line at the start of a
line. Both patterns are read over characters; bytes that are no UTF-8 are no character and fit
nothing. A blank in a pattern is any white space, so a start line may run over the end of a line.
The two patterns never fit at the same place: one goes on after its first word with a blank, the
other with a slash.
-/

namespace Trawl.Content.Http

/-- The two kinds of messages. -/
inductive Kind where
  | request
  | response
  deriving DecidableEq, Repr

/-- The content type of a message. -/
def Kind.name : Kind → String
  | .request => "http-request"
  | .response => "http-response"

/-- The byte that ends a line. -/
def lineFeed : UInt8 := 0x0A

namespace StartLine

/-- What follows one character of a class. -/
def one? (p : Char → Bool) (b : Bytes) : Option Bytes :=
  match Text.Utf8.next? b with
  | some (c, rest) => if p c then some rest else none
  | none => none

/-- What follows as many characters of a class as there are. -/
def many (p : Char → Bool) (b : Bytes) : Bytes :=
  match _h : Text.Utf8.next? b with
  | some (c, rest) => if p c then many p rest else b
  | none => b
termination_by b.length
decreasing_by exact Text.Utf8.length_of_next? _h

/-- What follows one or more characters of a class. -/
def some? (p : Char → Bool) (b : Bytes) : Option Bytes :=
  (one? p b).map (many p)

/-- What follows a text. -/
def text? (text : String) (b : Bytes) : Option Bytes :=
  let mark := Bytes.ofText text
  if mark.isPrefixOf b then some (b.drop mark.length) else none

/-- A capital letter of ASCII. -/
def isCapital (c : Char) : Bool :=
  'A' ≤ c && c ≤ 'Z'

theorem length_one? {p : Char → Bool} {b rest : Bytes} (h : one? p b = some rest) :
    rest.length < b.length := by
  unfold one? at h
  split at h
  · rename_i hn
    split at h
    · simp only [Option.some.injEq] at h
      subst h
      exact Text.Utf8.length_of_next? hn
    · simp at h
  · simp at h

theorem length_text?_le {text : String} {b rest : Bytes} (h : text? text b = some rest) :
    rest.length ≤ b.length := by
  unfold text? at h
  dsimp only at h
  split at h
  · simp only [Option.some.injEq] at h
    subst h
    simp
  · simp at h

/-- What follows as many groups of a point and one digit as there are. -/
def minors (b : Bytes) : Bytes :=
  match _ht : text? "." b with
  | none => b
  | some afterPoint =>
    match _ho : one? Text.isDecimalDigit afterPoint with
    | none => b
    | some rest => minors rest
termination_by b.length
decreasing_by exact Nat.lt_of_lt_of_le (length_one? _ho) (length_text?_le _ht)

/-- What follows a request line up to the digits of its version: a word of capitals, a blank, a
target without blanks, a blank, and the version. -/
def request? (b : Bytes) : Option Bytes := do
  let b ← some? isCapital b
  let b ← one? Text.isWhiteSpace b
  let b ← some? (fun c => !Text.isWhiteSpace c) b
  let b ← one? Text.isWhiteSpace b
  let b ← text? "HTTP/" b
  some? Text.isDecimalDigit b

/-- What follows a status line up to the first letters of its reason: the version, a blank, digits,
a blank, and capitals. -/
def status? (b : Bytes) : Option Bytes := do
  let b ← text? "HTTP/" b
  let b ← some? Text.isDecimalDigit b
  let b ← one? Text.isWhiteSpace (minors b)
  let b ← some? Text.isDecimalDigit b
  let b ← one? Text.isWhiteSpace b
  one? isCapital b

/-- The kind of message whose start line stands at the front. -/
def here? (b : Bytes) : Option Kind :=
  if (request? b).isSome then some .request
  else if (status? b).isSome then some .response
  else none

/-- The bytes after the first line feed. -/
def nextLine (b : Bytes) : Bytes :=
  (b.dropWhile (· ≠ lineFeed)).tail

theorem length_nextLine {b : Bytes} (h : b ≠ []) : (nextLine b).length < b.length := by
  have hd : (b.dropWhile (· ≠ lineFeed)).length ≤ b.length :=
    (List.dropWhile_sublist _).length_le
  have hb : 0 < b.length := List.length_pos_iff.mpr h
  simp only [nextLine, List.length_tail]
  omega

/-- The kind of message whose start line stands first at the start of a line. -/
def first? (b : Bytes) : Option Kind :=
  match here? b with
  | some kind => some kind
  | none => if _h : b = [] then none else first? (nextLine b)
termination_by b.length
decreasing_by exact length_nextLine _h

/-- The kind of message whose start line is the first line. Nothing after that line is looked at. -/
def leading? (b : Bytes) : Option Kind :=
  here? (b.takeWhile (· ≠ lineFeed))

end StartLine

end Trawl.Content.Http
