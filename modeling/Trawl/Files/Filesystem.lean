import Trawl.Files.Path
import Trawl.Source

/-!
# File systems

The three questions that this library asks a file system. They are asked in a monad of the file
system's own, so the same definitions work on real files and on a tree of files in memory.
-/

namespace Trawl.Files

/-- What a path leads to, links followed. -/
inductive Kind where
  | file
  | directory
  /-- Something that is neither. -/
  | other
  deriving DecidableEq, Repr

/-- A file system. -/
structure Filesystem (m : Type → Type) where
  /-- What a path leads to, if it leads to anything. -/
  kind? : Path → m (Option Kind)
  /-- The names in a directory, in any order. -/
  names : Path → m (Except FileFault (List String))
  /-- The content of a file. -/
  read : Path → m (Except FileFault Bytes)

end Trawl.Files
