import Trawl.CommandLine.Arguments
import Trawl.CommandLine.Input
import Trawl.CommandLine.PrintedRecord

/-!
# Commands

Carrying out what a command line asks for, on a machine with the given files and interfaces.
-/

namespace Trawl.CommandLine

open Files (Filesystem)

/-- What helps against a fault. -/
def hint? : SessionFault → Option String
  | .settings _ => some "check the values in the --config file"
  | .source (.noInterface _) => some "run `capsift interfaces` to list capture interfaces"
  | .source (.reported _) | .source (.captureFile (.unreadable ..)) =>
    some "the file may be truncated or not a pcap/pcapng capture"
  | _ => none

/-- The failure that a fault of a session is. -/
def sessionFailure (f : SessionFault) : Failure :=
  ⟨⟨.error, f.messageParts.1, f.messageParts.2⟩, (hint? f).map (⟨.hint, ·, ""⟩)⟩

/-- A predicate that decides about each item on its own and never fails. -/
def stateless {α : Type} (accept : α → Bool) : Predicate Unit α :=
  ⟨(), fun _ a => .ok (accept a, ())⟩

namespace CaptureOptions

/-- Whether a piece of content is to be printed. -/
def wants (o : CaptureOptions) (c : Content.Chunk) : Bool :=
  !(o.skipUnknown && c.kind = Content.unknownKind) &&
    (o.chunkTypes.isEmpty || o.chunkTypes.contains c.kind)

/-- The session that options ask for. -/
def session (o : CaptureOptions) (settings : Settings) : Session Unit Unit where
  settings := settings
  packetPredicate := if o.printPackets then none else some (stateless fun _ => false)
  chunkPredicate :=
    if o.chunkTypes.isEmpty && !o.skipUnknown then none else some (stateless o.wants)
  taken := fun _ => true

end CaptureOptions

/-- The message about a session that went well. -/
def totalsMessage (t : Totals) : Message :=
  ⟨.success, toString t.framesRead ++ " frames read, " ++ toString t.packetsDelivered ++
    " packets and " ++ toString t.chunksDelivered ++ " chunks printed (" ++
    toString t.streamsCompleted ++ " streams, " ++ toString t.flowsEvicted ++ " evicted)", ""⟩

/-- What is printed of a session. What was captured before a fault is printed nevertheless. Only the
first fault is looked at. -/
def reportOutcome (o : CaptureOptions) (r : Report) : Outcome where
  packets := r.packets.map fun f => printed o.pretty (packetRecord f)
  chunks := r.chunks.map fun c => printed o.pretty (chunkRecord c)
  messages :=
    match r.faults with
    | fault :: _ => (sessionFailure fault).messages
    | [] => if o.quiet then [] else [totalsMessage r.totals]
  succeeded := r.faults.isEmpty

/-- Runs a session on a source. -/
def sessionOutcome (o : CaptureOptions) (settings : Settings) (interfaces : List Interface)
    (source : Source) : Outcome :=
  let session := o.session settings
  match session.start interfaces source with
  | .error fault => .ofFailure (sessionFailure fault)
  | .ok script => reportOutcome o (session.run script)

/-- An interface as a line of text. -/
def interfaceLine (i : Interface) : String :=
  i.name ++ " " ++ ", ".intercalate (i.addresses.map (·.toText))

/-- Interfaces as JSON. -/
def interfacesDocument (interfaces : List Interface) : Json :=
  .list (interfaces.map fun i =>
    .object [("name", .text i.name), ("ips", .list (i.addresses.map fun a => .text a.toText))])

/-- What a command line comes to. -/
inductive Answer where
  /-- The words are not understood. -/
  | misuse
  /-- Help or the version is asked for. -/
  | help
  /-- No command is given, so there is only an overview to show. -/
  | overview
  | interfaces (text : String)
  | outcome (outcome : Outcome)
  deriving DecidableEq, Repr

/-- Lists interfaces. -/
def listInterfaces (json : Bool) (interfaces : List Interface) : Answer :=
  if json then .interfaces (interfacesDocument interfaces).pretty
  else if interfaces.isEmpty then
    .outcome (.ofFailure
      (.of "no network interfaces found" "live capture may need elevated privileges"))
  else .interfaces ("\n".intercalate (interfaces.map interfaceLine))

section

variable {m : Type → Type} [Monad m] (files : Filesystem m)

/-- The source that is captured from. -/
def openInput : Input → ExceptT Failure m Source
  | .interface name => return .interface name
  | .file path => do
    let found ← (locateInput files path).adapt InputFault.failure
    return .file (← files.read found)

/-- The settings to capture with. -/
def loadSettings : Option Files.Path → ExceptT Failure m Settings
  | none => return {}
  | some path => do
    match settingsOfContent path (← files.read path) with
    | .error fault => throw fault.failure
    | .ok settings =>
      match settings.fault? with
      | some fault => throw (sessionFailure (.settings fault))
      | none => return settings

/-- Captures. Faults of the input come before those of the settings, and those before anything that
is wrong with the content of the capture. -/
def capture (interfaces : List Interface) (o : CaptureOptions) : ExceptT Failure m Outcome := do
  let source ← openInput files o.input
  let settings ← loadSettings files o.settings
  return sessionOutcome o settings interfaces source

/-- Follows the words of a command line. -/
def run (interfaces : List Interface) (words : List String) : m Answer := do
  match Request.parse words with
  | .error .mistake => return .misuse
  | .error .help => return .help
  | .ok .nothing => return .overview
  | .ok (.interfaces json) => return listInterfaces json interfaces
  | .ok (.capture options) =>
    match ← (capture files interfaces options).run with
    | .error failure => return .outcome (.ofFailure failure)
    | .ok outcome => return .outcome outcome

end

end Trawl.CommandLine
