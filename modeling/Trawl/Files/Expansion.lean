import Trawl.Files.Filesystem
import Trawl.Files.Pattern

/-!
# Expanding patterns

The paths in a file system that fit a pattern, in the order of their names. A step without wildcards
is followed without looking at what else there is; for any other step the directory is read.
-/

namespace Trawl.Files

/-- How deep directories are searched, which is deeper than the system's paths reach. -/
def depthLimit : Nat := 4096

/-- Orders names by their characters. -/
def nameOrder (a b : String) : Bool :=
  a ≤ b

namespace Filesystem

variable {m : Type → Type} [Monad m] (files : Filesystem m)

/-- Whether a path leads to a directory. -/
def isDirectory (p : Path) : m Bool := do
  return (← files.kind? p) = some .directory

/-- Whether a path leads to a file. -/
def isFile (p : Path) : m Bool := do
  return (← files.kind? p) = some .file

/-- The names in a directory in order; none if the path leads to something else. -/
def sortedNames (p : Path) : ExceptT FileFault m (List String) := do
  if ← files.isDirectory p then
    return (← ExceptT.mk (files.names p)).mergeSort nameOrder
  else return []

/-- What `visit` finds at every path, in order. -/
def collect {α : Type} (visit : α → ExceptT FileFault m (List Path)) :
    List α → ExceptT FileFault m (List Path)
  | [] => return []
  | a :: more => do return (← visit a) ++ (← collect visit more)

/-- What `visit` finds at everything below a directory, at every directory before its content. -/
def below (visit : (path : Path) → (name : String) → ExceptT FileFault m (List Path)) :
    (depth : Nat) → Path → ExceptT FileFault m (List Path)
  | 0, _ => return []
  | depth + 1, directory => do
    collect (fun name => do
      let path := directory.within name
      return (← visit path name) ++ (← below visit depth path)) (← files.sortedNames directory)

/-- Whether a step without wildcards leads from a directory to something. -/
def leadsOn (directory path : Path) (name : String) : m Bool := do
  if name = "." ∨ name = ".." then files.isDirectory directory
  else return (← files.kind? path).isSome

/-- The paths that fit steps from a path on. -/
def pathsFrom : List Step → Path → ExceptT FileFault m (List Path)
  | [], path => return [path]
  | .name name :: steps, directory => do
    let path := directory.within name
    if ← files.leadsOn directory path name then pathsFrom steps path else return []
  | .wild tokens :: steps, directory => do
    let names ← files.sortedNames directory
    let special ← collect (fun name => pathsFrom steps (directory.join name))
      (if (Step.wild tokens).startsWithDot && (← files.isDirectory directory) then
        ["..", "."].filter fun name => (Step.wild tokens).fits name
      else [])
    let found ← collect (fun name => pathsFrom steps (directory.within name))
      (names.filter fun name => (Step.wild tokens).fits name)
    return special ++ found
  | [.anyDepth], directory =>
    files.below (fun path _ => do
      return if ← files.isDirectory path then [path] else []) depthLimit directory
  | .anyDepth :: step :: steps, directory =>
    files.below (fun path name => if step.fits name then pathsFrom steps path else return [])
      depthLimit directory

/-- The files that fit a pattern. -/
def expand (pattern : Pattern) : ExceptT FileFault m (List Path) := do
  let paths ← pathsFrom files pattern.steps (if pattern.isAbsolute then "/" else Path.here)
  let kept ← paths.filterM fun path => files.isFile path
  return if pattern.directoryOnly then [] else kept

end Filesystem

end Trawl.Files
