import Trawl.CaptureFile.Reader
import Trawl.Interface

/-!
# Sources

Where records come from: a capture file, an interface, or a script. An opened source is a script: a
finite list of readings, and a fault if the source does not simply end after them.
-/

namespace Trawl

/-- Why a file cannot be read at all. -/
inductive FileFault where
  | notFound
  /-- Anything else, in the words of the system. -/
  | other (reason : String)
  deriving DecidableEq, Repr

/-- The wording of a file fault. -/
def FileFault.message : FileFault → String
  | .notFound => "file not found"
  | .other reason => reason

/-- Why a source gives no record, or no more of them. -/
inductive SourceFault where
  | unreadable (fault : FileFault)
  | captureFile (fault : CaptureFile.Fault)
  /-- A fault that the source itself puts into words. -/
  | reported (text : String)
  | noInterface (name : String)
  /-- An interface that cannot be captured on. -/
  | unsupportedInterface (name : String)
  deriving DecidableEq, Repr

namespace SourceFault

/-- What stands before the words for an unreadable file. -/
def unreadableLead : String := "I/O error"

/-- What stands before the words for a capture that cannot be parsed. -/
def parseLead : String := "PCAP parse error: "

/-- The words for a fault without their detail, and the detail. -/
def messageParts : SourceFault → String × String
  | .unreadable fault => (unreadableLead, ": " ++ fault.message)
  | .captureFile .tooShort => (unreadableLead, ": file too short")
  | .captureFile (.unreadable format activity cause) =>
    (parseLead ++ CaptureFile.context format activity, ": " ++ cause.message)
  | .reported text => (parseLead ++ text, "")
  | .noInterface name => ("network interface not found: " ++ name, "")
  | .unsupportedInterface name => ("unsupported datalink channel on interface " ++ name, "")

/-- The wording of a fault. -/
def message (f : SourceFault) : String :=
  f.messageParts.1 ++ f.messageParts.2

end SourceFault

/-- What one reading from a source gives. -/
inductive Reading where
  | record (record : Record)
  /-- Nothing within the time that the source waits, which was so many nanoseconds. -/
  | timedOut (elapsed : Nat)
  deriving DecidableEq, Repr

/-- Whether a reading takes time. -/
def Reading.isPause : Reading → Bool
  | .record _ => false
  | .timedOut elapsed => 0 < elapsed

/-- Everything that an opened source gives. -/
structure Script where
  readings : List Reading
  /-- The fault that ends the source, if it does not end by itself. -/
  fault : Option SourceFault
  deriving DecidableEq, Repr

/-- The readings up to the last pause. -/
def Script.untilPause (s : Script) : List Reading :=
  (s.readings.reverse.dropWhile fun r => !r.isPause).reverse

/-- A source that is still to be opened. -/
inductive Source where
  /-- A file, with its bytes or the reason why they cannot be read. -/
  | file (content : Except FileFault Bytes)
  | interface (name : String)
  | script (script : Script)

/-- The script of a capture file. -/
def Script.ofFile (file : Bytes) : Except SourceFault Script :=
  match CaptureFile.Reader.ofFile file with
  | .error fault => .error (.captureFile fault)
  | .ok reader =>
    let (records, fault) := reader.records
    .ok ⟨records.map .record, fault.map .captureFile⟩

/-- Opens a source on a machine with the given interfaces. Capturing on an interface is none of this
library's business, so of those it only tells whether they exist. -/
def Source.read (interfaces : List Interface) : Source → Except SourceFault Script
  | .file (.error reason) => .error (.unreadable reason)
  | .file (.ok content) => Script.ofFile content
  | .interface name =>
    match Interface.named? name interfaces with
    | none => .error (.noInterface name)
    | some _ => .error (.unsupportedInterface name)
  | .script given => .ok given

end Trawl
