import Trawl.Json.Value

/-!
# Writing JSON

Two layouts of the same text: `compact` has no blanks at all, `pretty` puts every item on a line of
its own and indents it by two spaces for each level. In a string only the quote, the backslash and
the characters below U+0020 are escaped, so a compact text is a single line.
-/

namespace Trawl.Json

/-- A hexadecimal digit, lower case. -/
def hexDigit (n : Nat) : Char :=
  Nat.digitChar (n % 16)

/-- The form of a character inside a string. -/
def escape (c : Char) : List Char :=
  if c = '"' then ['\\', '"']
  else if c = '\\' then ['\\', '\\']
  else if 0x20 ≤ c.toNat then [c]
  else if c.toNat = 0x08 then ['\\', 'b']
  else if c.toNat = 0x09 then ['\\', 't']
  else if c.toNat = 0x0A then ['\\', 'n']
  else if c.toNat = 0x0C then ['\\', 'f']
  else if c.toNat = 0x0D then ['\\', 'r']
  else ['\\', 'u', '0', '0', hexDigit (c.toNat / 16), hexDigit c.toNat]

/-- A string in quotes. -/
def quoted (s : String) : List Char :=
  '"' :: (s.toList.flatMap escape ++ ['"'])

/-- Decimal digits of a number. -/
def digits (n : Nat) : List Char :=
  Nat.toDigits 10 n

/-- The words for the values without parts. -/
def word : Json → List Char
  | .bool true => ['t', 'r', 'u', 'e']
  | .bool false => ['f', 'a', 'l', 's', 'e']
  | _ => ['n', 'u', 'l', 'l']

/-- A line break, with the indentation of a level after it. -/
def newline (level : Nat) : List Char :=
  '\n' :: List.replicate (2 * level) ' '

mutual

/-- The text of a value without blanks. -/
def compactChars : Json → List Char
  | .number n => digits n
  | .text s => quoted s
  | .list items => '[' :: (compactItems items ++ [']'])
  | .object fields => '\x7b' :: (compactFields fields ++ ['\x7d'])
  | j => word j

/-- Items with commas between them. -/
def compactItems : List Json → List Char
  | [] => []
  | [j] => compactChars j
  | j :: more => compactChars j ++ ',' :: compactItems more

/-- Fields with commas between them. -/
def compactFields : List (String × Json) → List Char
  | [] => []
  | [(name, j)] => quoted name ++ ':' :: compactChars j
  | (name, j) :: more => quoted name ++ ':' :: (compactChars j ++ ',' :: compactFields more)

end

mutual

/-- The text of a value laid out in lines, its inner lines one level deeper than `level`. -/
def prettyChars (level : Nat) : Json → List Char
  | .number n => digits n
  | .text s => quoted s
  | .list [] => ['[', ']']
  | .list items => '[' :: (prettyItems (level + 1) items ++ newline level ++ [']'])
  | .object [] => ['\x7b', '\x7d']
  | .object fields => '\x7b' :: (prettyFields (level + 1) fields ++ newline level ++ ['\x7d'])
  | j => word j

/-- Items on lines of their own. -/
def prettyItems (level : Nat) : List Json → List Char
  | [] => []
  | [j] => newline level ++ prettyChars level j
  | j :: more => newline level ++ prettyChars level j ++ ',' :: prettyItems level more

/-- Fields on lines of their own. -/
def prettyFields (level : Nat) : List (String × Json) → List Char
  | [] => []
  | [(name, j)] => newline level ++ quoted name ++ ':' :: ' ' :: prettyChars level j
  | (name, j) :: more =>
    newline level ++ quoted name ++ ':' :: ' ' ::
      (prettyChars level j ++ ',' :: prettyFields level more)

end

/-- The text of a value on one line. -/
def compact (j : Json) : String :=
  String.ofList j.compactChars

/-- The text of a value laid out in lines. -/
def pretty (j : Json) : String :=
  String.ofList (prettyChars 0 j)

end Trawl.Json
