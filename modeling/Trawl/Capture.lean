import Trawl.Frame
import Trawl.Settings
import Trawl.Source

/-!
# Capturing

Readings in, frames and completed streams out. Every record is cut to the snapshot length and
decoded; the segments among them are reassembled. Streams that stay silent are completed when the
source pauses, and what is left is completed at its end. A stream that cannot be split into pieces
of content gives none and does no harm to others.
-/

namespace Trawl

/-- Nanoseconds in a millisecond. -/
def millisecond : Nat := 1000000

/-- What a capture finds out from the machine that it runs on. -/
structure Machine where
  /-- What the clock shows after so many nanoseconds. It may stand still for a while. -/
  clock : Nat → Nat
  /-- The order in which the table of streams then lists their flows. -/
  order : Nat → List Flow

/-- A clock that shows every nanosecond, and a table that lists streams as they were opened. -/
def Machine.steady : Machine where
  clock := id
  order := fun _ => []

/-- What has been captured so far. -/
structure Capture where
  machine : Machine
  pool : Reassembly.Pool
  /-- Nanoseconds since the start. -/
  elapsed : Nat
  /-- The decoded records, newest first. -/
  frames : List Frame
  /-- The completed streams, newest first. -/
  completed : List Reassembly.Completed

namespace Capture

/-- Before the first reading. -/
def start (machine : Machine) (settings : Settings) : Capture :=
  ⟨machine, .empty settings.pages, 0, [], []⟩

/-- The outcome of an operation on the streams. -/
def afterPool (c : Capture) (result : Reassembly.Pool × List Reassembly.Completed) : Capture :=
  { c with pool := result.1, completed := result.2.reverse ++ c.completed }

/-- What a frame does to the streams. It arrives a nanosecond after what came before it, and it may
give their table another order. -/
def assembled (c : Capture) (frame : Frame) : Reassembly.Pool × List Reassembly.Completed :=
  match frame.layers.segment with
  | none => (c.pool, [])
  | some segment =>
    let pool := c.pool.listed (c.machine.order (c.elapsed + 1))
    pool.assemble segment frame.payload (c.machine.clock (c.elapsed + 1))

/-- Takes in a frame. -/
def takeFrame (c : Capture) (frame : Frame) : Capture :=
  let result := c.assembled frame
  { c with elapsed := c.elapsed + 1, frames := frame :: c.frames }.afterPool result

/-- Takes in a record. -/
def takeRecord (settings : Settings) (c : Capture) (r : Record) : Capture :=
  c.takeFrame (.decode (r.clamp settings.snapshotLength))

/-- Streams silent since before this time are idle, as the last look at the clock finds it. The
clock is looked at once in every flush interval. -/
def idleSince? (settings : Settings) (clock : Nat) : Option Nat :=
  let interval := settings.flushInterval * millisecond
  let looked := clock / interval * interval
  let timeout := settings.idleTimeout * millisecond
  if timeout ≤ looked then some (looked - timeout) else none

/-- Completes the streams that have been silent since before some time, if there is one. -/
def sweep (c : Capture) : Option Nat → Capture
  | none => c
  | some cutoff => c.afterPool (c.pool.flushOlderThan cutoff)

/-- Takes in a pause. -/
def takePause (settings : Settings) (c : Capture) (pause : Nat) : Capture :=
  let c := { c with elapsed := c.elapsed + pause }
  c.sweep (idleSince? settings (c.machine.clock c.elapsed))

/-- Takes in a reading. -/
def take (settings : Settings) (c : Capture) : Reading → Capture
  | .record r => c.takeRecord settings r
  | .timedOut pause => c.takePause settings pause

/-- Completes what is left. -/
def finish (c : Capture) : Capture :=
  c.afterPool c.pool.flushAll

/-- Captures everything that a source gives. -/
def run (machine : Machine) (settings : Settings) (script : Script) : Capture :=
  (script.readings.foldl (take settings) (start machine settings)).finish

/-- The pieces of content of a completed stream. -/
def chunksOf (limits : Content.Limits) (stream : Reassembly.Completed) : List Content.Chunk :=
  match Content.classify limits none none stream.data with
  | .ok chunks => chunks
  | .error _ => []

/-- The pieces of content of all completed streams, in order. -/
def chunks (limits : Content.Limits) (c : Capture) : List Content.Chunk :=
  c.completed.reverse.flatMap (chunksOf limits)

end Capture

end Trawl
