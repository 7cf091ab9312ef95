import Trawl.Files.Filesystem

/-!
# Trees of files

Files in memory: a tree from the root down, and the directory in it from which relative paths start.
-/

namespace Trawl.Files

/-- A file, or a directory with its entries. -/
inductive FileTree where
  | file (content : Bytes)
  | directory (entries : List (String × FileTree))
  deriving Repr, Inhabited

namespace FileTree

/-- A directory that holds nothing. -/
def empty : FileTree :=
  .directory []

/-- Follows some steps. The directories above, nearest first, are there for the steps back up, of
which the root has none. A step of no characters leads nowhere, but only a directory can be followed
by it. -/
def follow (above : List FileTree) (tree : FileTree) : List String → Option FileTree
  | [] => some tree
  | step :: steps =>
    match tree with
    | .file _ => none
    | .directory entries =>
      if step = "" ∨ step = "." then follow above tree steps
      else if step = ".." then
        match above with
        | [] => follow [] tree steps
        | parent :: above => follow above parent steps
      else
        match entries.lookup step with
        | none => none
        | some child => follow (tree :: above) child steps

/-- What an entry is. -/
def kind : FileTree → Kind
  | .file _ => .file
  | .directory _ => .directory

/-- The names in a directory. -/
def names : FileTree → Except FileFault (List String)
  | .file _ => .error (.other "not a directory")
  | .directory entries => .ok (entries.map (·.1))

/-- The content of a file. -/
def content : FileTree → Except FileFault Bytes
  | .file content => .ok content
  | .directory _ => .error (.other "is a directory")

/-- Puts an entry where there may be one already. A directory keeps what it holds. -/
def place (entry : FileTree) : Option FileTree → FileTree
  | some (.directory entries) =>
    match entry with
    | .directory more => .directory (entries ++ more)
    | .file _ => entry
  | _ => entry

/-- Adds an entry at the end of a path, and directories on the way where there are none. -/
def insert (entry : FileTree) : (steps : List String) → Option FileTree → FileTree
  | [], found => place entry found
  | step :: steps, found =>
    let entries : List (String × FileTree) :=
      match found with
      | some (.directory entries) => entries
      | _ => []
    .directory (entries.filter (·.1 ≠ step) ++ [(step, insert entry steps (entries.lookup step))])

end FileTree

/-- A tree of files and the names that lead from its root to the working directory. -/
structure Disk where
  root : FileTree
  here : List String

namespace Disk

/-- The steps that a path stands for, from the root on. -/
def way (d : Disk) (p : Path) : List String :=
  if p.isAbsolute then p.steps else d.here ++ p.steps

/-- What a path leads to. -/
def find? (d : Disk) (p : Path) : Option FileTree :=
  if p = "" then none else d.root.follow [] (d.way p)

/-- A disk as a file system. -/
def filesystem (d : Disk) : Filesystem Id where
  kind? p := (d.find? p).map FileTree.kind
  names p := ((d.find? p).map FileTree.names).getD (.error .notFound)
  read p := ((d.find? p).map FileTree.content).getD (.error .notFound)

/-- A disk with nothing but a working directory. -/
def holding (tree : FileTree) : Disk where
  root := .directory [("work", tree)]
  here := ["work"]

end Disk

/-- A working directory as a file system, with nothing else on the disk. -/
def FileTree.filesystem (tree : FileTree) : Filesystem Id :=
  (Disk.holding tree).filesystem

end Trawl.Files
