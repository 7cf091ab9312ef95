import Trawl.CommandLine.Command

/-!
# The program

The outermost layer: it asks the system about files, prints what a command comes to, and ends with
its exit code. No capturing on interfaces is built in, so there are none to list.
-/

namespace Trawl.Program

open CommandLine (Answer Outcome)

/-- What the system says about a file that it cannot give. -/
def fileFault : IO.Error → FileFault
  | .noFileOrDirectory .. => .notFound
  | fault => .other (toString fault)

/-- What a path leads to on the machine. -/
def kind? (path : String) : IO (Option Files.Kind) := do
  if path.isEmpty then return none
  let here ← IO.currentDir
  try
    match (← (here / path).metadata).type with
    | .file => return some .file
    | .dir => return some .directory
    | _ => return some .other
  catch _ => return none

/-- The names in a directory of the machine. -/
def names (path : String) : IO (Except FileFault (List String)) := do
  let here ← IO.currentDir
  try
    return .ok ((← (here / path).readDir).toList.map (·.fileName))
  catch fault => return .error (fileFault fault)

/-- The content of a file of the machine. -/
def read (path : String) : IO (Except FileFault Bytes) := do
  let here ← IO.currentDir
  try
    return .ok (← IO.FS.readBinFile (here / path)).data.toList
  catch fault => return .error (fileFault fault)

/-- The files of the machine. -/
def files : Files.Filesystem IO :=
  ⟨kind?, names, read⟩

/-- How the program is called. -/
def usage : String :=
  "\n".intercalate
    ["Usage: capsift [OPTIONS] <COMMAND>",
      "",
      "Commands:",
      "  interfaces  list network interfaces",
      "  capture     capture from an interface or a saved file",
      "  help        print this message",
      "",
      "Options of capture:",
      "  -i, --interface <NAME>    --promiscuous",
      "  -f, --file <PATH>         --config <PATH>",
      "  --no-packets              --chunk-type <TYPE>",
      "  --skip-unknown            --pretty",
      "",
      "Options:",
      "  -v, --verbose    --quiet    -h, --help    -V, --version"]

/-- Prints what a command comes to. -/
def print (o : Outcome) : IO Unit := do
  (o.packets ++ o.chunks).forM fun record => IO.println record
  o.messages.forM fun message => IO.eprintln message.toText

/-- Prints an answer. The result is the exit code. -/
def conclude : Answer → IO Nat
  | .misuse => do
    IO.eprintln "error: the arguments are not understood\n"
    IO.eprintln usage
    return 2
  | .help => do
    IO.println usage
    return 0
  | .overview => do
    IO.eprintln usage
    return 2
  | .interfaces text => do
    IO.println text
    return 0
  | .outcome o => do
    print o
    return o.exitCode

end Trawl.Program

/-- Follows the command line. -/
def main (arguments : List String) : IO UInt32 := do
  let answer ← Trawl.CommandLine.run Trawl.Program.files [] arguments
  return UInt32.ofNat (← Trawl.Program.conclude answer)
