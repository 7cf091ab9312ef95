import Trawl.Capture
import Trawl.Pipeline.Queue
import Trawl.Predicate

/-!
# Sessions

A session captures from one source and hands frames and pieces of content to a caller, each through
a predicate if one is set. This is what a session comes to when it runs to its end one step after
the other, and the caller turns to the faults when the outputs that it takes have ended.
-/

namespace Trawl

/-- The two outputs of a session. -/
inductive Output where
  | packets
  | chunks
  deriving DecidableEq, Repr

/-- The name of the predicate of an output. -/
def Output.predicateName : Output → String
  | .packets => "packet"
  | .chunks => "stream"

/-- What can go wrong with a session. -/
inductive SessionFault where
  | settings (fault : SettingsFault)
  | source (fault : SourceFault)
  | predicate (output : Output) (message : String)
  deriving DecidableEq, Repr

namespace SessionFault

/-- The words for a fault without the detail that comes from outside, and that detail. -/
def messageParts : SessionFault → String × String
  | .settings fault => ("invalid configuration: " ++ fault.message, "")
  | .source fault => ("capture source: " ++ fault.messageParts.1, fault.messageParts.2)
  | .predicate output message =>
    (output.predicateName ++ " predicate failed: " ++ message, "")

/-- The wording of a fault. -/
def message (f : SessionFault) : String :=
  f.messageParts.1 ++ f.messageParts.2

end SessionFault

/-- Totals of a session. -/
structure Totals where
  framesRead : Nat
  /-- Frames handed to the caller. -/
  packetsDelivered : Nat
  streamsCompleted : Nat
  /-- Pieces of content found in completed streams. -/
  chunksEmitted : Nat
  /-- Pieces of content handed to the caller. -/
  chunksDelivered : Nat
  flowsEvicted : Nat
  deriving DecidableEq, Repr

/-- What a session comes to. -/
structure Report where
  /-- The faults that the caller hears of, oldest first. -/
  faults : List SessionFault
  packets : List Frame
  chunks : List Content.Chunk
  totals : Totals
  deriving DecidableEq, Repr

/-- The report of a session that was closed before anything happened. -/
def Report.nothing : Report where
  faults := []
  packets := []
  chunks := []
  totals := ⟨0, 0, 0, 0, 0, 0⟩

/-- A session that is set up. -/
structure Session (σ τ : Type) where
  settings : Settings
  packetPredicate : Option (Predicate σ Frame)
  chunkPredicate : Option (Predicate τ Content.Chunk)
  /-- The outputs that the caller takes. What is meant for another one is dropped. -/
  taken : Output → Bool
  /-- What it runs on. -/
  machine : Machine := .steady

namespace Session

variable {σ τ : Type}

/-- A session without predicates that hands out everything. -/
def plain (settings : Settings) (machine : Machine) : Session Unit Unit where
  settings := settings
  packetPredicate := none
  chunkPredicate := none
  taken := fun _ => true
  machine := machine

/-- Checks the settings and opens the source. -/
def start (s : Session σ τ) (interfaces : List Interface) (source : Source) :
    Except SessionFault Script :=
  match s.settings.fault? with
  | some fault => .error (.settings fault)
  | none =>
    match source.read interfaces with
    | .error fault => .error (.source fault)
    | .ok script => .ok script

/-- The items that reach the caller. -/
def delivered {α : Type} (s : Session σ τ) (output : Output) (filtered : Filtered α) : List α :=
  if s.taken output then filtered.accepted else []

/-- The failure that ends the filters, which take frames before content. -/
def failure? (frames : Filtered Frame) (chunks : Filtered Content.Chunk) : Option SessionFault :=
  (frames.failure.map (.predicate .packets)) <|> (chunks.failure.map (.predicate .chunks))

/-- The failure of a predicate on what was captured until the source paused for the last time. -/
def failureBeforePause? (s : Session σ τ) (script : Script) : Option SessionFault :=
  let capture := script.untilPause.foldl (Capture.take s.settings) (.start s.machine s.settings)
  failure? (filterIfAny s.packetPredicate capture.frames.reverse)
    (filterIfAny s.chunkPredicate (capture.chunks s.settings.classifier))

/-- Whether an output has a predicate. -/
def hasPredicate (s : Session σ τ) : Output → Bool
  | .packets => s.packetPredicate.isSome
  | .chunks => s.chunkPredicate.isSome

/-- Whether the caller takes an output with a predicate, which ends with the filters, or else one
without, which ends with the capture. -/
def awaits (s : Session σ τ) (filtered : Bool) : Bool :=
  [Output.packets, .chunks].any fun output => s.taken output && s.hasPredicate output == filtered

/-- Reports a fault, which a caller who is at the queue of faults takes at once. -/
def tell (atQueue : Bool) (faults : Pipeline.Queue SessionFault) (fault : SessionFault) :
    Pipeline.Queue SessionFault :=
  let faults := faults.offer fault
  if atQueue then (faults.receive?.map (·.2)).getD faults else faults

/-- The faults that the caller hears of. The queue holds one, and what finds it full is lost. -/
def heard (atQueue : Bool) (reported : List SessionFault) : List SessionFault :=
  (reported.foldl (tell atQueue) (.empty 1)).history

/-- The faults of a session in which the filters fail for some reason at last, if they do. They keep
up with the capture whenever the source pauses, and otherwise follow when it has ended. The caller
is at the queue of faults between the two where no output that it takes goes on after the first. -/
def faults (s : Session σ τ) (script : Script) (failure : Option SessionFault) :
    List SessionFault :=
  let source := script.fault.toList.map .source
  match s.failureBeforePause? script with
  | some failure =>
    let source := if s.settings.onPredicateFailure = .keepCapturing then source else []
    heard (!s.awaits false) (failure :: source)
  | none => heard (!s.awaits true) (source ++ failure.toList)

/-- Runs a session on an opened source. -/
def run (s : Session σ τ) (script : Script) : Report :=
  let capture := Capture.run s.machine s.settings script
  let chunks := capture.chunks s.settings.classifier
  let keptFrames := filterIfAny s.packetPredicate capture.frames.reverse
  let keptChunks := filterIfAny s.chunkPredicate chunks
  let packetsOut := s.delivered .packets keptFrames
  let chunksOut := s.delivered .chunks keptChunks
  { faults := s.faults script (failure? keptFrames keptChunks)
    packets := packetsOut
    chunks := chunksOut
    totals :=
      { framesRead := capture.frames.length
        packetsDelivered := packetsOut.length
        streamsCompleted := capture.completed.length
        chunksEmitted := chunks.length
        chunksDelivered := chunksOut.length
        flowsEvicted := capture.pool.evictions } }

end Session

end Trawl
