import Trawl.CommandLine.Outcome
import Trawl.Files.Expansion
import Trawl.Session
import Trawl.Settings.Reader

/-!
# Input files

From the paths on a command line to what is captured. The path of a capture may be a pattern, which
has to fit exactly one file, and its name has to end as those of captures do.
-/

namespace Trawl.CommandLine

open Files (Path Filesystem Pattern)

/-- Why there is no capture to read. -/
inductive InputFault where
  | notFound (path : Path)
  | notFile (path : Path)
  | unsupported (path : Path)
  | badPattern (pattern : Path) (reason : String)
  | noMatch (pattern : Path)
  | severalMatches (pattern : Path) (found : List Path)
  deriving DecidableEq, Repr

/-- How many of several files are named. -/
def namedMatches : Nat := 3

/-- The first few of several files. -/
def matchesText (found : List Path) : String :=
  ", ".intercalate (found.take namedMatches) ++
    if namedMatches < found.length then ", ..." else ""

/-- The failure that a fault is. -/
def InputFault.failure : InputFault → Failure
  | .notFound path => .of ("input file not found: " ++ path) "use a .pcap or .pcapng file"
  | .notFile path => .of ("input is not a file: " ++ path) "use a .pcap or .pcapng file"
  | .unsupported path =>
    .of ("unsupported input format '" ++ path ++ "'") "expected a .pcap or .pcapng file"
  | .badPattern pattern reason =>
    ⟨⟨.error, "invalid input pattern '" ++ pattern ++ "'", ""⟩,
      some ⟨.hint, "pattern error", ": " ++ reason⟩⟩
  | .noMatch pattern =>
    .of ("no files match pattern '" ++ pattern ++ "'")
      "check the path or quote the pattern; expected .pcap or .pcapng"
  | .severalMatches pattern found =>
    .of ("multiple files match pattern '" ++ pattern ++ "' (" ++ toString found.length ++
        " matches); matches: " ++ matchesText found)
      "pass a single capture file, or run once per file"

/-- The endings of the names of captures. -/
def captureExtensions : List String := ["pcap", "pcapng"]

/-- A letter in lower case, if it is one of ASCII. -/
def lowerCase (text : String) : String :=
  String.ofList (text.toList.map Char.toLower)

/-- Whether a path ends as those of captures do, whatever the case. -/
def isCapturePath (path : Path) : Bool :=
  match path.extension? with
  | some text => captureExtensions.contains (lowerCase text)
  | none => false

section

variable {m : Type → Type} [Monad m] (files : Filesystem m)

/-- The one path that an input stands for. A path that is no pattern stands for itself. -/
def resolveInput (path : Path) : ExceptT InputFault m Path :=
  if Pattern.isMeant path then
    match Pattern.parse path with
    | .error fault => throw (.badPattern path fault.message)
    | .ok pattern => do
      match ← (files.expand pattern).run with
      | .error fault => throw (.badPattern path fault.message)
      | .ok [] => throw (.noMatch path)
      | .ok [found] => return found
      | .ok found => throw (.severalMatches path found)
  else return path

/-- Checks that a path leads to a capture. -/
def checkInput (path : Path) : ExceptT InputFault m Unit := do
  match ← files.kind? path with
  | none => throw (.notFound path)
  | some .file => if isCapturePath path then return () else throw (.unsupported path)
  | some _ => throw (.notFile path)

/-- The path of the capture to read. -/
def locateInput (path : Path) : ExceptT InputFault m Path := do
  let found ← resolveInput files path
  checkInput files found
  return found

end

/-- Why settings are not read. -/
inductive SettingsFileFault where
  | unreadable (path : Path) (reason : String)
  | malformed (path : Path) (fault : Json.ReadFault)
  deriving DecidableEq, Repr

/-- The wording of a fault in a JSON text. -/
def readFaultText : Json.ReadFault → String
  | .malformed => "the text is no JSON"
  | .unsuitable => "a value does not fit"
  | .cutOff => "the text ends early"

/-- The failure that a fault is. -/
def SettingsFileFault.failure : SettingsFileFault → Failure
  | .unreadable path reason =>
    ⟨⟨.error, "cannot read config file " ++ path, ": " ++ reason⟩,
      some ⟨.hint, "pass a readable JSON file to --config", ""⟩⟩
  | .malformed path fault =>
    ⟨⟨.error, "invalid config file " ++ path, ": " ++ readFaultText fault⟩,
      some ⟨.hint, "unknown fields are ignored; check value types", ""⟩⟩

/-- The settings that the content of a file holds. -/
def settingsOfContent (path : Path) :
    Except FileFault Bytes → Except SettingsFileFault Settings
  | .error fault => .error (.unreadable path fault.message)
  | .ok content =>
    match content.toText? with
    | none => .error (.unreadable path "the text is not UTF-8")
    | some text =>
      match Settings.parse text with
      | .error fault => .error (.malformed path fault)
      | .ok settings => .ok settings

end Trawl.CommandLine
