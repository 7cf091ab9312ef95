/-!
# Paths

A path is a text in which slashes separate the steps to a file. What it leads to is for a file
system to say; here is only how paths are put together and taken apart.
-/

namespace Trawl.Files

/-- A path, relative to the working directory unless it starts with a slash. -/
abbrev Path := String

namespace Path

/-- The path of the working directory itself. -/
def here : Path := "."

/-- Cuts characters at every slash. -/
def cut : List Char → List (List Char)
  | [] => [[]]
  | '/' :: rest => [] :: cut rest
  | c :: rest =>
    match cut rest with
    | [] => [[c]]
    | step :: steps => (c :: step) :: steps

/-- What stands between the slashes of a path. -/
def steps (p : Path) : List String :=
  (cut p.toList).map String.ofList

/-- Whether a path starts at the root. -/
def isAbsolute (p : Path) : Bool :=
  p.toList.head? = some '/'

/-- Whether a path is the working directory, written as one dot and more dots and slashes that add
nothing to it. -/
def isHere (p : Path) : Bool :=
  p.steps.head? = some "." && p.steps.all fun step => step = "." || step = ""

/-- The path of something in a directory. -/
def join (directory : Path) (name : String) : Path :=
  if directory.toList.getLast? = some '/' then directory ++ name else directory ++ "/" ++ name

/-- The path of something in a directory, which is left out if it is the working directory. -/
def within (directory : Path) (name : String) : Path :=
  if directory.isHere then name else directory.join name

/-- The name that a path ends in. -/
def fileName (p : Path) : String :=
  p.steps.getLast?.getD ""

/-- What follows the last dot of a name, nothing if no other character comes before that dot. -/
def extension? (p : Path) : Option String :=
  let reversed := p.fileName.toList.reverse
  match reversed.dropWhile (· ≠ '.') with
  | _ :: _ :: _ => some (String.ofList (reversed.takeWhile (· ≠ '.')).reverse)
  | _ => none

end Path

end Trawl.Files
