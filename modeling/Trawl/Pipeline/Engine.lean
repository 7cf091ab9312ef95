import Trawl.Pipeline.Lane
import Trawl.Session

/-!
# The engine

A session as it really runs: a reader, the capture, a dispatcher for the filters, and the caller, each
of which may act at any time. They share nothing but queues of limited size and a mark that the session
is cancelled. A run is a list of actions, in the order in which they happened; `run?` tells what it
leads to, and that it could not have happened where an action had to wait.
-/

namespace Trawl.Pipeline

/-- What the capture still has to do before it takes the next record. -/
inductive Task where
  | classify (stream : Reassembly.Completed)
  | sendChunk (chunk : Content.Chunk)
  | sendFrame (frame : Frame)
  deriving DecidableEq, Repr

/-- How far the capture has come. -/
inductive Progress where
  | capturing
  /-- The source is at its end, and what was left has been completed. -/
  | finishing
  /-- It waits for the reader to stop. -/
  | leaving
  | stopped
  deriving DecidableEq, Repr

/-- What the dispatcher is doing. -/
inductive Dispatch where
  /-- It waits for the next round. -/
  | waiting
  /-- It is the turn of a filter. -/
  | serving (output : Output)
  | stopped
  deriving DecidableEq, Repr

/-- A running session. -/
structure Engine (σ τ : Type) where
  settings : Settings
  /-- What the reader has not read yet. -/
  script : Script
  isReading : Bool
  /-- From the reader to the capture: records, or the fault of the source. -/
  source : Queue (Except SourceFault Record)
  capture : Capture
  progress : Progress
  tasks : List Task
  streamsCompleted : Nat
  chunksEmitted : Nat
  packets : Lane σ Frame
  chunks : Lane τ Content.Chunk
  dispatch : Dispatch
  /-- To the caller. It holds a single fault. -/
  faults : Queue SessionFault
  /-- Every fault that was reported, oldest first, also where there was no room for it. -/
  reported : List SessionFault
  isCancelled : Bool

/-- What may happen in a running session. -/
inductive Action where
  /-- The reader does its next step. -/
  | read
  /-- The reader notices that the session is cancelled. -/
  | stopReading
  /-- The capture does its next step. -/
  | capture
  /-- The capture completes the streams that were silent since before some time. -/
  | sweep (cutoff : Nat)
  /-- The capture notices that the session is cancelled. -/
  | stopCapture
  /-- The dispatcher does its next step. -/
  | dispatch
  /-- The dispatcher notices that the session is cancelled. -/
  | stopDispatch
  /-- The caller takes an item. -/
  | receive (output : Output)
  /-- The caller takes a fault. -/
  | receiveFault
  /-- The caller stops taking items. -/
  | abandon (output : Output)
  /-- The caller cancels the session. -/
  | cancel
  deriving DecidableEq, Repr

namespace Engine

variable {σ τ : Type}

/-- A session that starts on an opened source. -/
def start (s : Session σ τ) (script : Script) : Engine σ τ :=
  let capacity := s.settings.queueCapacity
  let burst := s.settings.dispatchBurst
  { settings := s.settings
    script
    isReading := true
    source := .empty capacity
    capture := .start s.machine s.settings
    progress := .capturing
    tasks := []
    streamsCompleted := 0
    chunksEmitted := 0
    packets := .start s.packetPredicate burst capacity (s.taken .packets)
    chunks := .start s.chunkPredicate burst capacity (s.taken .chunks)
    dispatch :=
      if s.packetPredicate.isSome || s.chunkPredicate.isSome then .waiting else .stopped
    faults := .empty 1
    reported := []
    isCancelled := false }

/-- Reports a fault to the caller, who does not hear of it while an earlier one waits. -/
def report (e : Engine σ τ) (fault : SessionFault) : Engine σ τ :=
  { e with faults := e.faults.offer fault, reported := e.reported ++ [fault] }

/-! ### The reader -/

/-- The reader ends. -/
def stopReading (e : Engine σ τ) : Engine σ τ :=
  { e with isReading := false, source := e.source.close }

/-- Hands something to the capture. The reader ends when nobody takes it. -/
def handOver? (e : Engine σ τ) (item : Except SourceFault Record) : Option (Engine σ τ) :=
  if e.source.hasReceiver then (e.source.send? item).map fun source => { e with source }
  else some e.stopReading

/-- The next step of the reader. A pause only takes time. -/
def read? (e : Engine σ τ) : Option (Engine σ τ) :=
  if !e.isReading then none
  else
    match e.script.readings, e.script.fault with
    | .timedOut _ :: more, fault => some { e with script := ⟨more, fault⟩ }
    | .record r :: more, fault =>
      { e with script := ⟨more, fault⟩ }.handOver? (.ok (r.clamp e.settings.snapshotLength))
    | [], some fault => { e with script := ⟨[], none⟩ }.handOver? (.error fault)
    | [], none => some e.stopReading

/-! ### The capture -/

/-- Takes in a frame: the streams that it completes come first, then the frame itself. -/
def takeFrame (e : Engine σ τ) (frame : Frame) : Engine σ τ :=
  { e with
    capture := e.capture.takeFrame frame
    tasks := (e.capture.assembled frame).2.map .classify ++ [.sendFrame frame] }

/-- Takes over the outcome of an operation on the streams. -/
def afterPool (e : Engine σ τ) (result : Reassembly.Pool × List Reassembly.Completed) :
    Engine σ τ :=
  { e with capture := e.capture.afterPool result, tasks := result.2.map .classify }

/-- Completes what is left. -/
def finish (e : Engine σ τ) : Engine σ τ :=
  { e.afterPool e.capture.pool.flushAll with progress := .finishing }

/-- Takes what the reader handed over. -/
def takeItem (e : Engine σ τ) : Except SourceFault Record → Engine σ τ
  | .ok r => e.takeFrame (.decode r)
  | .error fault => (e.report (.source fault)).finish

/-- Starts to leave: nothing more is taken from the reader. -/
def leave (e : Engine σ τ) : Engine σ τ :=
  { e with progress := .leaving, tasks := [], source := e.source.abandon }

/-- Leaves, as soon as the reader has stopped. -/
def stop (e : Engine σ τ) : Engine σ τ :=
  { e with progress := .stopped, packets := e.packets.close, chunks := e.chunks.close }

/-- Does a task. Nothing if it has to wait for room. -/
def work? (e : Engine σ τ) (more : List Task) : Task → Option (Engine σ τ)
  | .classify stream =>
    some { e with
      tasks := (Capture.chunksOf e.settings.classifier stream).map .sendChunk ++ more
      streamsCompleted := e.streamsCompleted + 1 }
  | .sendChunk chunk =>
    (e.chunks.send? chunk).map fun chunks =>
      { e with tasks := more, chunks, chunksEmitted := e.chunksEmitted + 1 }
  | .sendFrame frame =>
    (e.packets.send? frame).map fun packets => { e with tasks := more, packets }

/-- The next step of the capture. -/
def capture? (e : Engine σ τ) : Option (Engine σ τ) :=
  match e.tasks, e.progress with
  | task :: more, _ => e.work? more task
  | [], .capturing =>
    match e.source.receive? with
    | some (item, source) => some ({ e with source }.takeItem item)
    | none => if e.source.isOpen then none else some e.finish
  | [], .finishing => some e.leave
  | [], .leaving => if e.isReading then none else some e.stop
  | [], .stopped => none

/-- Whether the capture waits for the next record. -/
def isBetweenRecords (e : Engine σ τ) : Bool :=
  e.progress = .capturing && e.tasks.isEmpty

/-- Completes idle streams, between two records. -/
def sweep? (e : Engine σ τ) (cutoff : Nat) : Option (Engine σ τ) :=
  if e.isBetweenRecords then some (e.afterPool (e.capture.pool.flushOlderThan cutoff)) else none

/-- Leaves because the session is cancelled, in the middle of a task if there is one. That task counts
as begun. -/
def stopCapture? (e : Engine σ τ) : Option (Engine σ τ) :=
  if !e.isCancelled then none
  else
    match e.tasks, e.progress with
    | .classify _ :: _, _ => some { e with streamsCompleted := e.streamsCompleted + 1 }.leave
    | .sendChunk _ :: _, _ => some { e with chunksEmitted := e.chunksEmitted + 1 }.leave
    | .sendFrame _ :: _, _ => some e.leave
    | [], .capturing => some e.leave
    | [], _ => none

/-! ### The dispatcher -/

/-- The dispatcher goes away, and the filters with it. -/
def stopDispatch (e : Engine σ τ) : Engine σ τ :=
  { e with
    dispatch := .stopped
    packets := e.packets.stopFilter
    chunks := e.chunks.stopFilter }

/-- Goes on after the turn of a filter: with the other filter, or with the next round, or not at all
where both are done. -/
def nextTurn (e : Engine σ τ) : Output → Engine σ τ
  | .packets => { e with dispatch := .serving .chunks }
  | .chunks =>
    if e.packets.filters || e.chunks.filters then { e with dispatch := .waiting }
    else e.stopDispatch

/-- Reports that a predicate failed. That ends the dispatcher, and the session too where the settings
say so. -/
def predicateFailed (e : Engine σ τ) (output : Output) (message : String) : Engine σ τ :=
  { e.report (.predicate output message) with
    isCancelled := e.isCancelled || e.settings.onPredicateFailure = FailurePolicy.stopCapture
  }.stopDispatch

/-- Takes over a step in the turn of a filter. -/
def afterTurn {α ρ : Type} (e : Engine σ τ) (output : Output)
    (set : Lane ρ α → Engine σ τ → Engine σ τ) : Filter.Turn ρ α → Engine σ τ
  | .goesOn f => set (.filtered f) e
  | .over f => (set (.filtered f) e).nextTurn output
  | .failed message f => (set (.filtered f) e).predicateFailed output message

/-- A step in the turn of a lane's filter, if there is one. -/
def turn? {α ρ : Type} (e : Engine σ τ) (output : Output)
    (step : Filter ρ α → Option (Filter.Turn ρ α))
    (set : Lane ρ α → Engine σ τ → Engine σ τ) : Lane ρ α → Option (Engine σ τ)
  | .direct _ => some (e.nextTurn output)
  | .filtered f => (step f).map (e.afterTurn output set)

/-- An engine with another lane for frames. -/
def setPackets (l : Lane σ Frame) (e : Engine σ τ) : Engine σ τ :=
  { e with packets := l }

/-- An engine with another lane for content. -/
def setChunks (l : Lane τ Content.Chunk) (e : Engine σ τ) : Engine σ τ :=
  { e with chunks := l }

/-- The next step of the dispatcher. -/
def dispatch? (e : Engine σ τ) : Option (Engine σ τ) :=
  match e.dispatch with
  | .waiting => some { e with dispatch := .serving .packets }
  | .serving .packets => e.turn? .packets Filter.step? setPackets e.packets
  | .serving .chunks => e.turn? .chunks Filter.step? setChunks e.chunks
  | .stopped => none

/-- What the dispatcher does when it notices that the session is cancelled. -/
def stopDispatch? (e : Engine σ τ) : Option (Engine σ τ) :=
  if !e.isCancelled then none
  else
    match e.dispatch, e.packets, e.chunks with
    | .waiting, _, _ => some e.stopDispatch
    | .serving .packets, .filtered f, _ => f.breakOff?.map (e.afterTurn .packets setPackets)
    | .serving .chunks, _, .filtered f => f.breakOff?.map (e.afterTurn .chunks setChunks)
    | _, _, _ => none

/-! ### Runs -/

/-- What an action leads to. Nothing if it cannot happen now. -/
def step? (e : Engine σ τ) : Action → Option (Engine σ τ)
  | .read => e.read?
  | .stopReading =>
    if e.isReading && e.isCancelled then some e.stopReading else none
  | .capture => e.capture?
  | .sweep cutoff => e.sweep? cutoff
  | .stopCapture => e.stopCapture?
  | .dispatch => e.dispatch?
  | .stopDispatch => e.stopDispatch?
  | .receive .packets => e.packets.receive?.map fun packets => { e with packets }
  | .receive .chunks => e.chunks.receive?.map fun chunks => { e with chunks }
  | .receiveFault => e.faults.receive?.map fun taken => { e with faults := taken.2 }
  | .abandon .packets => some { e with packets := e.packets.abandon }
  | .abandon .chunks => some { e with chunks := e.chunks.abandon }
  | .cancel => some { e with isCancelled := true }

/-- What a run leads to. Nothing if it cannot happen. -/
def run? (e : Engine σ τ) (actions : List Action) : Option (Engine σ τ) :=
  actions.foldlM step? e

/-- Whether everything has stopped and the caller has taken what it takes. -/
def isOver (e : Engine σ τ) : Bool :=
  !e.isReading && e.progress = .stopped && e.dispatch = .stopped &&
    e.packets.exit.waiting.isEmpty && e.chunks.exit.waiting.isEmpty

/-- The faults that the caller has taken. -/
def faultsReceived (e : Engine σ τ) : List SessionFault :=
  e.faults.history.take (e.faults.history.length - e.faults.waiting.length)

/-- The totals so far. -/
def totals (e : Engine σ τ) : Totals where
  framesRead := e.capture.frames.length
  packetsDelivered := e.packets.forwarded
  streamsCompleted := e.streamsCompleted
  chunksEmitted := e.chunksEmitted
  chunksDelivered := e.chunks.forwarded
  flowsEvicted := e.capture.pool.evictions

end Engine

end Trawl.Pipeline
