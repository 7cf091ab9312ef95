import Trawl.Files.Path

/-!
# Patterns for paths

In a pattern `*` stands for any characters of a name, `?` for one of them, `[...]` for one that it
lists and `[!...]` for one that it does not. The step `**` stands for any number of directories, and
has to be a step of its own. A text that uses none of these is an ordinary path.
-/

namespace Trawl.Files

/-- Characters from the first to the last of a range. -/
structure CharRange where
  first : Char
  last : Char
  deriving DecidableEq, Repr

/-- Whether a character is in a range. -/
def CharRange.has (r : CharRange) (c : Char) : Bool :=
  r.first ≤ c && c ≤ r.last

/-- What stands for one character of a name, or for any number of them. -/
inductive Token where
  | char (c : Char)
  | anyChar
  | anyChars
  /-- A character in one of the ranges, or in none of them. -/
  | oneOf (negated : Bool) (ranges : List CharRange)
  deriving DecidableEq, Repr

/-- Why a text is no pattern. -/
inductive PatternFault where
  /-- More than two stars in a row. -/
  | wildcards
  /-- Two stars beside other characters. -/
  | depthInStep
  /-- A list of characters that does not end. -/
  | ranges
  deriving DecidableEq, Repr

/-- The wording of a fault. -/
def PatternFault.message : PatternFault → String
  | .wildcards => "wildcards are either regular `*` or recursive `**`"
  | .depthInStep => "recursive wildcards must form a single path component"
  | .ranges => "invalid range pattern"

/-- One step of a pattern. -/
inductive Step where
  /-- A name without wildcards. -/
  | name (text : String)
  | wild (tokens : List Token)
  /-- Any number of directories. -/
  | anyDepth
  deriving DecidableEq, Repr

/-- A pattern for paths. -/
structure Pattern where
  isAbsolute : Bool
  steps : List Step
  /-- A slash at the end, so that only directories fit. -/
  directoryOnly : Bool
  deriving DecidableEq, Repr

/-- Whether a character of a name fits a token for one character. -/
def Token.fits (c : Char) : Token → Bool
  | .char d => c = d
  | .anyChar => true
  | .anyChars => false
  | .oneOf negated ranges => ranges.any (·.has c) != negated

/-- Whether some end of a name passes a test. -/
def anySuffix (test : List Char → Bool) : List Char → Bool
  | [] => test []
  | c :: rest => test (c :: rest) || anySuffix test rest

/-- Whether a name fits tokens. -/
def Token.fitAll : List Token → List Char → Bool
  | [], name => name.isEmpty
  | .anyChars :: tokens, name => anySuffix (fitAll tokens) name
  | token :: tokens, c :: name => token.fits c && fitAll tokens name
  | _ :: _, [] => false

namespace Step

/-- Whether a name fits a step. -/
def fits (name : String) : Step → Bool
  | .name text => name = text
  | .wild tokens => Token.fitAll tokens name.toList
  | .anyDepth => true

/-- Whether the first character of a step is a literal dot. -/
def startsWithDot : Step → Bool
  | .wild (.char '.' :: _) => true
  | _ => false

/-- The ranges between brackets: two characters with a dash between them, or single ones. -/
def ranges : List Char → List CharRange
  | a :: '-' :: b :: rest => ⟨a, b⟩ :: ranges rest
  | a :: rest => ⟨a, a⟩ :: ranges rest
  | [] => []

/-- What an opening bracket starts, and what comes after it. The first character in it belongs to the
list even if it is a closing bracket. -/
def bracket? (negated : Bool) : List Char → Option (Token × List Char)
  | [] => none
  | first :: rest =>
    match rest.dropWhile (· ≠ ']') with
    | [] => none
    | _ :: after => some (.oneOf negated (ranges (first :: rest.takeWhile (· ≠ ']'))), after)

/-- What comes after an opening bracket, as `bracket?` reads it. -/
def list? : List Char → Option (Token × List Char)
  | '!' :: rest => bracket? true rest
  | rest => bracket? false rest

theorem length_of_bracket? {negated : Bool} {text rest : List Char} {token : Token}
    (h : bracket? negated text = some (token, rest)) : rest.length < text.length := by
  cases text with
  | nil => simp [bracket?] at h
  | cons first more =>
    simp only [bracket?] at h
    split at h
    · simp at h
    · rename_i c after hafter
      simp only [Option.some.injEq, Prod.mk.injEq] at h
      have := (List.dropWhile_sublist (· ≠ ']') (l := more)).length_le
      rw [hafter, h.2, List.length_cons] at this
      simp only [List.length_cons]
      omega

theorem length_of_list? {text rest : List Char} {token : Token}
    (h : list? text = some (token, rest)) : rest.length < text.length := by
  unfold list? at h
  split at h
  · have := length_of_bracket? h
    simp only [List.length_cons]
    omega
  · exact length_of_bracket? h

/-- The tokens of a step in which stars stand alone. -/
def tokens? (text : List Char) : Except PatternFault (List Token) :=
  match text with
  | [] => .ok []
  | '?' :: rest => (tokens? rest).map (.anyChar :: ·)
  | '*' :: '*' :: '*' :: _ => .error .wildcards
  | '*' :: '*' :: _ => .error .depthInStep
  | '*' :: rest => (tokens? rest).map (.anyChars :: ·)
  | '[' :: rest =>
    match _h : list? rest with
    | none => .error .ranges
    | some (token, after) => (tokens? after).map (token :: ·)
  | c :: rest => (tokens? rest).map (.char c :: ·)
termination_by text.length
decreasing_by
  all_goals try simp only [List.length_cons]; omega
  have := length_of_list? _h
  simp only [List.length_cons]
  omega

/-- The character that a token stands for, if it is the only one. -/
def literal? : Token → Option Char
  | .char c => some c
  | _ => none

/-- Reads a step. -/
def parse (text : List Char) : Except PatternFault Step :=
  if text = ['*', '*'] then .ok .anyDepth
  else do
    let tokens ← tokens? text
    match tokens.mapM literal? with
    | some text => return .name (String.ofList text)
    | none => return .wild tokens

end Step

namespace Pattern

/-- Whether a text is meant as a pattern. -/
def isMeant (text : String) : Bool :=
  text.toList.any ['*', '?', '['].contains

/-- Several steps of any depth in a row are the same as one. -/
def collapse : List Step → List Step
  | .anyDepth :: .anyDepth :: rest => collapse (.anyDepth :: rest)
  | step :: rest => step :: collapse rest
  | [] => []

/-- Reads a pattern. -/
def parse (text : Path) : Except PatternFault Pattern := do
  let isAbsolute := text.isAbsolute
  let pieces := Path.cut (if isAbsolute then text.toList.tail else text.toList)
  let directoryOnly := pieces.getLast? = some []
  let steps ← (if directoryOnly then pieces.dropLast else pieces).mapM Step.parse
  return { isAbsolute, steps := collapse steps, directoryOnly }

end Pattern

end Trawl.Files
