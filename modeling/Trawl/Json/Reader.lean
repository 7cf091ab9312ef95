import Trawl.Json.Decimal
import Trawl.Text.Utf16

/-!
# Reading JSON

Readers for the parts of a JSON text, to be put together by whoever knows what the text should hold.
A reader takes bytes off the front. What goes wrong first decides the fault, so a text that both ends
early and holds the wrong thing is judged by what comes first.
-/

namespace Trawl.Json

/-- Why a text cannot be read. -/
inductive ReadFault where
  /-- The text is no JSON. -/
  | malformed
  /-- The text is JSON and holds the wrong thing. -/
  | unsuitable
  /-- The text ends early. -/
  | cutOff
  deriving DecidableEq, Repr

/-- A way to read something off the front of a text. -/
abbrev Reader : Type → Type :=
  StateT Bytes (Except ReadFault)

namespace Reader

/-- The first byte of what is left, which stays there. -/
def peek : Reader (Option UInt8) := do
  return (← get).head?

/-- Passes over a byte. -/
def skip : Reader Unit :=
  modify List.tail

/-- The next byte, which is passed over. -/
def next : Reader UInt8 := do
  match ← peek with
  | none => throw .cutOff
  | some b => skip; return b

/-- Passes over blanks. -/
def skipBlanks : Reader Unit :=
  modify (·.dropWhile [0x20, 0x0A, 0x09, 0x0D].contains)

/-- The first byte after blanks, which stays there. -/
def peekToken : Reader (Option UInt8) := do
  skipBlanks
  peek

/-- The first byte after blanks, which stays there and has to be one. -/
def peekValue : Reader UInt8 := do
  match ← peekToken with
  | none => throw .cutOff
  | some b => return b

/-- Passes over blanks and a byte that has to follow them. -/
def expectToken (token : UInt8) : Reader Unit := do
  if (← peekValue) = token then skip else throw .malformed

/-- Repeats a step until it gives a result, at most once for each byte of `bound`. -/
def iterateWithin {σ α : Type} (step : σ → Reader (σ ⊕ α)) : (bound : Bytes) → σ → Reader α
  | [], _ => throw .malformed
  | _ :: bound, s => do
    match ← step s with
    | .inl s => iterateWithin step bound s
    | .inr a => return a

/-- Repeats a step until it gives a result. Every step that goes on takes up bytes, so there are at
most as many of those as there are bytes. -/
def iterate {σ α : Type} (step : σ → Reader (σ ⊕ α)) (s : σ) : Reader α := do
  iterateWithin step (0 :: (← get)) s

/-! ### Strings -/

/-- The value of a hexadecimal digit. -/
def hexValue? (b : UInt8) : Option Nat :=
  if 0x30 ≤ b && b ≤ 0x39 then some (b.toNat - 0x30)
  else if 0x61 ≤ b && b ≤ 0x66 then some (b.toNat - 0x57)
  else if 0x41 ≤ b && b ≤ 0x46 then some (b.toNat - 0x37)
  else none

/-- A number of four hexadecimal digits. -/
def hex4 : Reader Nat := do
  match (← get).split? 4 with
  | none => throw .cutOff
  | some (digits, rest) =>
    set rest
    match digits.mapM hexValue? with
    | none => throw .malformed
    | some values => return values.foldl (fun n value => n * 16 + value) 0

/-- The UTF-8 form of a scalar value. -/
def utf8 (value : Nat) : Bytes :=
  Bytes.ofText (String.singleton (Char.ofNat value))

/-- The character that an escape by number stands for. A half of a pair has to be followed by the
other one. -/
def numbered : Reader Bytes := do
  let n ← hex4
  if Text.Utf16.isLeading n then
    if (← next) ≠ 0x5C then throw .malformed
    if (← next) ≠ 0x75 then throw .malformed
    let m ← hex4
    if Text.Utf16.isTrailing m then return utf8 (Text.Utf16.pairValue n m) else throw .malformed
  else if Text.Utf16.isTrailing n then throw .malformed
  else return utf8 n

/-- The characters that a backslash and a letter stand for. -/
def escapes : List (UInt8 × UInt8) :=
  [(0x22, 0x22), (0x5C, 0x5C), (0x2F, 0x2F), (0x62, 0x08), (0x66, 0x0C), (0x6E, 0x0A),
    (0x72, 0x0D), (0x74, 0x09)]

/-- What a backslash stands for together with the bytes after it. -/
def escape (byNumber : Reader Bytes) : Reader Bytes := do
  let b ← next
  if b = 0x75 then byNumber
  else
    match escapes.lookup b with
    | some c => return [c]
    | none => throw .malformed

/-- The bytes of a string after its opening quote, in pieces, the last one first. -/
def stringPieces (byNumber : Reader Bytes) : Reader (List Bytes) :=
  iterate (fun done => do
    let b ← next
    if b = 0x22 then return .inr done
    else if b = 0x5C then return .inl ((← escape byNumber) :: done)
    else if b < 0x20 then throw .malformed
    else return .inl ([b] :: done)) []

/-- A string, after its opening quote. -/
def string : Reader Bytes := do
  return (← stringPieces numbered).reverse.flatten

/-- Passes over a string after its opening quote. Halves of pairs may stand alone in it. -/
def skipString : Reader Unit := do
  let _ ← stringPieces do
    let _ ← hex4
    return []

/-! ### Words and numbers -/

/-- Passes over the rest of a word. -/
def word (rest : String) : Reader Unit :=
  (Bytes.ofText rest).forM fun b => do
    if (← next) ≠ b then throw .malformed

/-- A decimal digit. -/
def isDigit (b : UInt8) : Bool :=
  0x30 ≤ b && b ≤ 0x39

/-- The digits that come next. -/
def digits : Reader Bytes := do
  let b ← get
  set (b.dropWhile isDigit)
  return b.takeWhile isDigit

/-- Digits, at least one. -/
def someDigits : Reader Bytes := do
  match ← peek with
  | none => throw .cutOff
  | some b => if isDigit b then digits else throw .malformed

/-- Digits of a number before its point: none after a leading zero. -/
def wholeDigits : Reader Bytes := do
  let found ← someDigits
  if found.head? = some 0x30 ∧ found.length ≠ 1 then throw .malformed else return found

/-- The digits after a point, none where there is no point. -/
def fractionDigits : Reader Bytes := do
  if (← peek) = some 0x2E then
    skip
    someDigits
  else return []

/-- The number of decimal digits. -/
def decimal (digits : Bytes) : Nat :=
  digits.foldl (fun n b => n * 10 + (b.toNat - 0x30)) 0

/-- The power of ten after an `e`, where there is one. -/
def exponent? : Reader (Option Int) := do
  if (← peek) = some 0x65 ∨ (← peek) = some 0x45 then
    skip
    let sign ← peek
    if sign = some 0x2B ∨ sign = some 0x2D then skip
    let size := decimal (← someDigits)
    return some (if sign = some 0x2D then -(size : Int) else size)
  else return none

/-- A number without its sign: its value if it is written as a natural number, and nothing if it has
a fraction or an exponent. -/
def number : Reader (Option Nat) := do
  let whole ← wholeDigits
  let fraction ← fractionDigits
  let exponent ← exponent?
  if (Decimal.ofDigits whole fraction (exponent.getD 0)).isOutOfRange then throw .malformed
  else if fraction.isEmpty && exponent.isNone then return some (decimal whole)
  else return none

/-- Passes over a number without its sign. One that ends early is malformed here. -/
def skipNumber : Reader Unit := do
  let strict (part : Reader Unit) : Reader Unit :=
    tryCatch part fun _ => throw .malformed
  strict do
    let _ ← wholeDigits
    let _ ← fractionDigits
    let _ ← exponent?

/-! ### Values that are not wanted -/

/-- What encloses a value. -/
inductive Enclosure where
  | list
  | object
  deriving DecidableEq, Repr

/-- The byte that ends an enclosure. -/
def Enclosure.close : Enclosure → UInt8
  | .list => 0x5D
  | .object => 0x7D

/-- Passes over the name of a field and the colon after it. -/
def skipName : Reader Unit := do
  expectToken 0x22
  skipString
  expectToken 0x3A

/-- Passes over the start of a value, or over all of it if it is not enclosed. The result is what it
opens. -/
def skipValueStart : Reader (Option Enclosure) := do
  let b ← peekValue
  if b = 0x22 then skip; skipString; return none
  else if b = 0x2D then skip; skipNumber; return none
  else if isDigit b then skipNumber; return none
  else if b = 0x6E then word "null"; return none
  else if b = 0x74 then word "true"; return none
  else if b = 0x66 then word "false"; return none
  else if b = 0x5B then skip; return some .list
  else if b = 0x7B then skip; return some .object
  else throw .malformed

/-- Passes over what ends after a value, or, when `fresh`, after an opening: enclosures that close,
and the comma and name before the next value. The result is what encloses the next value, innermost
first, or nothing where all is closed. -/
def skipToValue (fresh : Bool) : List Enclosure → Reader (List Enclosure)
  | [] => return []
  | enclosure :: outer => do
    let b ← peekValue
    if b = enclosure.close then
      skip
      skipToValue false outer
    else
      if !fresh then expectToken 0x2C
      if enclosure = .object then skipName
      return enclosure :: outer

/-- Passes over a value of any kind and depth. -/
def skipValue : Reader Unit :=
  iterate (fun enclosing => do
    let opened ← skipValueStart
    match ← skipToValue opened.isSome (opened.toList ++ enclosing) with
    | [] => return .inr ()
    | enclosing => return .inl enclosing) []

/-! ### Fields -/

/-- Passes over a value that is not what is wanted, as far as is needed to tell that it is one. -/
def reject {α : Type} : Reader α := do
  let b ← peekValue
  if b = 0x22 then
    skip
    let _ ← string
  else if b = 0x2D then
    skip
    let _ ← number
  else if isDigit b then
    let _ ← number
  else if b = 0x6E then word "null"
  else if b = 0x74 then word "true"
  else if b = 0x66 then word "false"
  else if b ≠ 0x5B ∧ b ≠ 0x7B then throw .malformed
  throw .unsuitable

/-- A natural number below a bound. -/
def natural (bound : Nat) : Reader Nat := do
  let b ← peekValue
  if isDigit b then
    match ← number with
    | some n => if n < bound then return n else throw .unsuitable
    | none => throw .unsuitable
  else reject

/-- A string value. -/
def text : Reader Bytes := do
  if (← peekValue) = 0x22 then
    skip
    string
  else reject

/-- One of several names, alone or as the only field of an object that holds null. -/
def oneOf {α : Type} (names : List (String × α)) : Reader α := do
  let choose (name : Bytes) : Reader α :=
    match names.find? fun entry => Bytes.ofText entry.1 = name with
    | some entry => return entry.2
    | none => throw .unsuitable
  let b ← peekValue
  if b = 0x22 then choose (← text)
  else if b = 0x7B then
    skip
    let chosen ← choose (← text)
    expectToken 0x3A
    if (← peekValue) = 0x6E then word "null" else reject
    expectToken 0x7D
    return chosen
  else throw .malformed

/-- A field of a record: its name, and how its value is read into the record. -/
structure Field (σ : Type) where
  name : String
  read : σ → Reader σ

/-- Whether another field follows in an object, and its name. -/
def nextName (first : Bool) : Reader (Option Bytes) := do
  let b ← peekValue
  if b = 0x7D then
    skip
    return none
  else
    if !first then expectToken 0x2C
    expectToken 0x22
    return some (← string)

/-- A record as an object: fields in any order, each at most once. Other fields do not matter. -/
def object {σ : Type} (fields : List (Field σ)) (start : σ) : Reader σ :=
  iterate (fun (first, seen, s) => do
    match ← nextName first with
    | none => return .inr s
    | some name =>
      match fields.find? fun field => Bytes.ofText field.name = name with
      | none =>
        expectToken 0x3A
        skipValue
        return .inl (false, seen, s)
      | some field =>
        if seen.contains field.name then throw .unsuitable
        expectToken 0x3A
        return .inl (false, field.name :: seen, ← field.read s))
    ((true, [], start) : Bool × List String × σ)

/-- A record as a list: values of its fields in order. Those at the end may be missing. -/
def listFrom {σ : Type} (first : Bool) : List (Field σ) → σ → Reader σ
  | [], s => do
    expectToken 0x5D
    return s
  | field :: fields, s => do
    if (← peekValue) = 0x5D then
      skip
      return s
    else
      if !first then expectToken 0x2C
      if (← peekValue) = 0x5D then throw .malformed
      listFrom false fields (← field.read s)

/-- A record, as an object or as a list. -/
def record {σ : Type} (fields : List (Field σ)) (start : σ) : Reader σ := do
  let b ← peekValue
  if b = 0x7B then
    skip
    object fields start
  else if b = 0x5B then
    skip
    listFrom true fields start
  else reject

/-- Reads a whole text, after which only blanks may follow. -/
def readAll {α : Type} (reader : Reader α) (text : String) : Except ReadFault α := do
  let (a, rest) ← StateT.run reader (Bytes.ofText text)
  let (token, _) ← StateT.run peekToken rest
  if token.isSome then throw .malformed else return a

end Reader

end Trawl.Json
