import Trawl.Pipeline.Engine
import Trawl.Proofs.Pipeline.Sequential

/-!
# Steps of the reader and of the capture

What the reader and the capture can do in one step (`Engine.ReadStep`, `Engine.CaptureStep`), each
with what has to hold for it.
-/

namespace Trawl

/-- What a script hands to the capture: its records, cut to the snapshot length, and its fault. -/
def Script.items (settings : Settings) (s : Script) : List (Except SourceFault Record) :=
  (s.records.map (·.clamp settings.snapshotLength)).map .ok ++ s.fault.toList.map .error

/-- How many readings a script has, its fault included. -/
def Script.size (s : Script) : Nat :=
  s.readings.length + s.fault.toList.length

namespace Pipeline

/-- The streams that a task is about. -/
def Task.streams : Task → List Reassembly.Completed
  | .classify stream => [stream]
  | _ => []

/-- The pieces of content that a task sends, or that come of it. -/
def Task.chunks (limits : Content.Limits) : Task → List Content.Chunk
  | .classify stream => Capture.chunksOf limits stream
  | .sendChunk chunk => [chunk]
  | .sendFrame _ => []

/-- The frames that a task sends. -/
def Task.frames : Task → List Frame
  | .sendFrame frame => [frame]
  | _ => []

section Tasks

variable (limits : Content.Limits) (streams : List Reassembly.Completed)
  (chunks : List Content.Chunk)

@[simp] theorem streams_classify : (streams.map Task.classify).flatMap Task.streams = streams := by
  rw [List.flatMap_map]
  exact List.flatMap_singleton' streams

@[simp] theorem chunks_classify :
    (streams.map Task.classify).flatMap (Task.chunks limits)
      = streams.flatMap (Capture.chunksOf limits) := by
  rw [List.flatMap_map]
  rfl

@[simp] theorem frames_classify : (streams.map Task.classify).flatMap Task.frames = [] := by
  simp [Task.frames]

@[simp] theorem streams_sendChunk : (chunks.map Task.sendChunk).flatMap Task.streams = [] := by
  simp [Task.streams]

@[simp] theorem chunks_sendChunk :
    (chunks.map Task.sendChunk).flatMap (Task.chunks limits) = chunks := by
  rw [List.flatMap_map]
  exact List.flatMap_singleton' chunks

@[simp] theorem frames_sendChunk : (chunks.map Task.sendChunk).flatMap Task.frames = [] := by
  simp [Task.frames]

end Tasks

namespace Engine

variable {σ τ : Type} {e e' : Engine σ τ}

/-- A step of the reader. -/
inductive ReadStep (e : Engine σ τ) : Engine σ τ → Prop
  | pause {script : Script} : script.size + 1 = e.script.size →
      (∀ settings, e.script.items settings = script.items settings) →
      ReadStep e { e with script }
  | hand {script : Script} {item : Except SourceFault Record} : script.size + 1 = e.script.size →
      e.script.items e.settings = item :: script.items e.settings →
      e.source.hasReceiver = true → e.source.hasRoom = true →
      ReadStep e { e with script, source := e.source.put item }
  | drop {script : Script} {item : Except SourceFault Record} :
      e.script.items e.settings = item :: script.items e.settings →
      e.source.hasReceiver = false →
      ReadStep e (stopReading { e with script })
  | stop : (∀ settings, e.script.items settings = []) → ReadStep e e.stopReading

theorem readStep_handOver? {script : Script} {item : Except SourceFault Record}
    (hsize : script.size + 1 = e.script.size)
    (hitems : e.script.items e.settings = item :: script.items e.settings)
    (h : { e with script }.handOver? item = some e') : e.ReadStep e' := by
  unfold handOver? at h
  simp only [Queue.send?] at h
  by_cases hreceiver : e.source.hasReceiver = true
  · by_cases hroom : e.source.hasRoom = true
    · simp only [hreceiver, hroom, if_true, Bool.not_true, Bool.false_eq_true, if_false,
        Option.map_some, Option.some.injEq] at h
      exact h ▸ .hand hsize hitems hreceiver hroom
    · simp [hreceiver, hroom] at h
  · rw [if_neg hreceiver, Option.some.injEq] at h
    exact h ▸ .drop hitems (by simpa using hreceiver)

theorem readStep_of_read? (h : e.read? = some e') : e.isReading = true ∧ e.ReadStep e' := by
  unfold read? at h
  split at h
  · simp at h
  rename_i hreading
  refine ⟨by simpa using hreading, ?_⟩
  have hscript : e.script = ⟨e.script.readings, e.script.fault⟩ := rfl
  split at h
  · rename_i elapsed more fault hr
    rw [hr] at hscript
    simp only [Option.some.injEq] at h
    refine h ▸ .pause ?_ fun settings => ?_
    · rw [hscript]
      simp only [Script.size, List.length_cons]
      omega
    · rw [hscript]
      rfl
  · rename_i r more fault hr
    rw [hr] at hscript
    refine readStep_handOver? ?_ ?_ h
    · rw [hscript]
      simp only [Script.size, List.length_cons]
      omega
    · rw [hscript]
      rfl
  · rename_i fault hr hf
    rw [hr, hf] at hscript
    refine readStep_handOver? ?_ ?_ h
    · rw [hscript]
      rfl
    · rw [hscript]
      rfl
  · rename_i hr hf
    rw [hr, hf] at hscript
    simp only [Option.some.injEq] at h
    refine h ▸ .stop fun settings => ?_
    rw [hscript]
    rfl

/-- A step of the capture. -/
inductive CaptureStep (e : Engine σ τ) : Engine σ τ → Prop
  | classify {stream : Reassembly.Completed} {more : List Task} :
      e.tasks = .classify stream :: more →
      CaptureStep e { e with
        tasks := (Capture.chunksOf e.settings.classifier stream).map .sendChunk ++ more
        streamsCompleted := e.streamsCompleted + 1 }
  | sendChunk {chunk : Content.Chunk} {more : List Task} {chunks : Lane τ Content.Chunk} :
      e.tasks = .sendChunk chunk :: more → e.chunks.send? chunk = some chunks →
      CaptureStep e { e with tasks := more, chunks, chunksEmitted := e.chunksEmitted + 1 }
  | sendFrame {frame : Frame} {more : List Task} {packets : Lane σ Frame} :
      e.tasks = .sendFrame frame :: more → e.packets.send? frame = some packets →
      CaptureStep e { e with tasks := more, packets }
  | takeRecord {r : Record} {waiting : List (Except SourceFault Record)} :
      e.tasks = [] → e.progress = .capturing → e.source.waiting = .ok r :: waiting →
      CaptureStep e (takeFrame { e with source := { e.source with waiting } } (.decode r))
  | takeFault {fault : SourceFault} {waiting : List (Except SourceFault Record)} :
      e.tasks = [] → e.progress = .capturing → e.source.waiting = .error fault :: waiting →
      CaptureStep e (finish (report { e with source := { e.source with waiting } } (.source fault)))
  | finish : e.tasks = [] → e.progress = .capturing → e.source.waiting = [] →
      e.source.isOpen = false → CaptureStep e e.finish
  | leave : e.tasks = [] → e.progress = .finishing → CaptureStep e e.leave
  | stop : e.tasks = [] → e.progress = .leaving → e.isReading = false → CaptureStep e e.stop

theorem captureStep_of_work? {task : Task} {more : List Task} (htasks : e.tasks = task :: more)
    (h : e.work? more task = some e') : e.CaptureStep e' := by
  cases task with
  | classify stream =>
    simp only [work?, Option.some.injEq] at h
    exact h ▸ .classify htasks
  | sendChunk chunk =>
    obtain ⟨chunks, hs, rfl⟩ := Option.map_eq_some_iff.1 h
    exact .sendChunk htasks hs
  | sendFrame frame =>
    obtain ⟨packets, hs, rfl⟩ := Option.map_eq_some_iff.1 h
    exact .sendFrame htasks hs

theorem captureStep_of_capture? (h : e.capture? = some e') : e.CaptureStep e' := by
  unfold capture? at h
  split at h
  · rename_i htasks
    exact captureStep_of_work? htasks h
  · rename_i htasks hprogress
    rcases hw : e.source.waiting with _ | ⟨item, waiting⟩
    · simp only [Queue.receive?, hw] at h
      split at h
      · simp at h
      · rename_i hopen
        simp only [Option.some.injEq] at h
        exact h ▸ .finish htasks hprogress hw (by simpa using hopen)
    · simp only [Queue.receive?, hw, Option.some.injEq] at h
      subst h
      cases item with
      | ok r => exact .takeRecord htasks hprogress hw
      | error fault => exact .takeFault htasks hprogress hw
  · rename_i htasks hprogress
    simp only [Option.some.injEq] at h
    exact h ▸ .leave htasks hprogress
  · rename_i htasks hprogress
    split at h
    · simp at h
    · rename_i hreading
      simp only [Option.some.injEq] at h
      exact h ▸ .stop htasks hprogress (by simpa using hreading)
  · simp at h

/-! ### Runs -/

theorem run?_cons (e : Engine σ τ) (a : Action) (actions : List Action) :
    e.run? (a :: actions) = (e.step? a).bind (·.run? actions) := by
  unfold run?
  exact List.foldlM_cons ..

theorem run?_append (e : Engine σ τ) (before later : List Action) :
    e.run? (before ++ later) = (e.run? before).bind (·.run? later) := by
  unfold run?
  exact List.foldlM_append ..

end Engine

end Pipeline

end Trawl
