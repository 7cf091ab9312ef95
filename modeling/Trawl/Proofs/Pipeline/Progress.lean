import Trawl.Proofs.Pipeline.Delivery

/-!
# The end of a session

A session that is left to itself comes to its end. Until it is over, the reader, the capture or the
caller can go on (`Engine.Delivers.goes_on`), and each of their steps leaves less to do
(`Engine.Delivers.left_lt`).
-/

namespace Trawl.Pipeline

open Capture (chunksOf framesOf streamsOf)

/-- What is still to be done for a queue through which so many items pass in all. -/
def Queue.left {α : Type} (total : Nat) (q : Queue α) : Nat :=
  2 * (total - q.history.length) + q.waiting.length

/-- How many steps the capture is away from its stop. -/
def Progress.left : Progress → Nat
  | .capturing => 3
  | .finishing => 2
  | .leaving => 1
  | .stopped => 0

/-- Whether an action looks for idle streams. -/
def Action.isSweep : Action → Bool
  | .sweep _ => true
  | _ => false

namespace Lane

variable {σ α : Type} {capacity total : Nat} {l l' : Lane σ α}

theorem InUse.left_send? (h : l.InUse capacity) {a : α} (hs : l.send? a = some l')
    (htotal : l.delivered.length < total) : l'.exit.left total + 1 = l.exit.left total := by
  obtain ⟨-, hdelivered, hwaiting⟩ := h.send? hs
  have hlength := congrArg List.length hdelivered
  simp only [delivered, List.length_append, List.length_singleton] at hlength htotal
  simp only [Queue.left, hwaiting, hlength, List.length_append, List.length_singleton]
  omega

theorem InUse.left_receive? (h : l.InUse capacity) (hs : l.receive? = some l') :
    l'.exit.left total + 1 = l.exit.left total := by
  obtain ⟨-, hdelivered, a, hwaiting⟩ := h.receive? hs
  have hlength := congrArg List.length hdelivered
  simp only [delivered] at hlength
  simp only [Queue.left, hwaiting, hlength, List.length_cons]
  omega

theorem InUse.left_close (h : l.InUse capacity) : l.close.exit.left total = l.exit.left total := by
  obtain ⟨-, hdelivered, hwaiting⟩ := h.close
  have hlength := congrArg List.length hdelivered
  simp only [delivered] at hlength
  simp only [Queue.left, hwaiting, hlength]

end Lane

namespace Engine

variable {σ τ : Type} {machine : Machine} {settings : Settings} {script : Script}
  {e e' : Engine σ τ}

/-- What is still to be done. -/
def left (machine : Machine) (settings : Settings) (script : Script) (e : Engine σ τ) : Nat :=
  let frames := framesOf settings script
  let streams := streamsOf machine settings.pages frames
  let chunks := streams.flatMap (chunksOf settings.classifier)
  e.script.size + e.isReading.toNat + (e.script.items settings).length + e.source.waiting.length +
    e.progress.left + e.packets.exit.left frames.length + (streams.length - e.streamsCompleted) +
    e.chunks.exit.left chunks.length + e.faults.left script.fault.toList.length

theorem Delivers.left_read (h : e.Delivers machine settings script) (hr : e.read? = some e') :
    e'.left machine settings script < e.left machine settings script := by
  obtain ⟨hreading, hstep⟩ := readStep_of_read? hr
  cases hstep with
  | pause hsize hitems =>
    simp only [left, hitems settings]
    omega
  | hand hsize hitems =>
    rw [h.settings_eq] at hitems
    simp only [left, hitems, Queue.put, List.length_append, List.length_cons, List.length_nil]
    omega
  | drop hitems hreceiver =>
    rw [h.settings_eq] at hitems
    simp [(h.capturing_of_item hitems).2] at hreceiver
  | stop hitems =>
    simp only [left, stopReading, hreading, Queue.close, Bool.toNat_true, Bool.toNat_false]
    omega

/-- What the capture still has to do is part of what the script gives in sequence. -/
theorem Delivers.pending_le (h : e.Delivers machine settings script) :
    e.packets.delivered.length + (e.tasks.flatMap Task.frames).length
        ≤ (framesOf settings script).length ∧
      e.streamsCompleted + (e.tasks.flatMap Task.streams).length
        ≤ (streamsOf machine settings.pages (framesOf settings script)).length ∧
      e.chunks.delivered.length + (e.tasks.flatMap (Task.chunks settings.classifier)).length
        ≤ ((streamsOf machine settings.pages (framesOf settings script)).flatMap
            (chunksOf settings.classifier)).length := by
  obtain ⟨hframes, hstreams⟩ := h.captured_prefix
  refine ⟨?_, ?_, ?_⟩
  · rw [← List.length_append, h.framesSent]
    exact hframes.length_le
  · rw [h.streams, ← List.length_reverse]
    exact hstreams.length_le
  · obtain ⟨more, hmore⟩ := hstreams
    rw [← List.length_append, h.chunksSent, ← hmore, List.flatMap_append, List.length_append]
    exact Nat.le_add_right ..

theorem Delivers.left_capture (h : e.Delivers machine settings script) (hc : e.capture? = some e') :
    e'.left machine settings script < e.left machine settings script := by
  obtain ⟨hframes, hstreams, hchunks⟩ := h.pending_le
  cases captureStep_of_capture? hc with
  | @classify stream more htasks =>
    simp only [htasks, List.flatMap_cons, Task.streams, List.length_append, List.length_cons]
      at hstreams
    simp only [left]
    omega
  | @sendChunk chunk more chunks htasks hsend =>
    simp only [htasks, List.flatMap_cons, Task.chunks, List.length_append, List.length_cons]
      at hchunks
    have := h.chunkLane.left_send? hsend (Nat.lt_of_lt_of_le (by omega) hchunks)
    simp only [left]
    omega
  | @sendFrame frame more packets htasks hsend =>
    simp only [htasks, List.flatMap_cons, Task.frames, List.length_append, List.length_cons]
      at hframes
    have := h.packets.left_send? hsend (Nat.lt_of_lt_of_le (by omega) hframes)
    simp only [left]
    omega
  | takeRecord htasks hprogress hw =>
    simp only [left, takeFrame, hw, List.length_cons]
    omega
  | @takeFault fault waiting htasks hprogress hw =>
    obtain ⟨taken, ht⟩ := h.capturing hprogress
    obtain ⟨-, hfault, -⟩ := (h.taken_eq ht).2 fault waiting hw
    have hoffer : (e.faults.offer (.source fault)).left 1 ≤ e.faults.left 1 := by
      have hempty := h.noFault hprogress
      have hw : e.faults.waiting = [] := List.suffix_nil.1 (hempty ▸ h.faultQueue.waiting)
      unfold Queue.offer
      split
      · simp [Queue.left, Queue.put, hempty, hw]
      · exact Nat.le_refl _
    simp only [left, Engine.finish, afterPool, report, hprogress, Progress.left, hw, hfault,
      Option.toList_some, List.length_cons, List.length_nil, Nat.zero_add]
    omega
  | finish htasks hprogress hw hopen =>
    simp only [left, Engine.finish, afterPool, hprogress, Progress.left]
    omega
  | leave htasks hprogress =>
    simp only [left, Engine.leave, hprogress, Progress.left, Queue.abandon, List.length_nil]
    omega
  | stop htasks hprogress hreading =>
    simp only [left, Engine.stop, hprogress, Progress.left, h.packets.left_close,
      h.chunkLane.left_close]
    omega

/-- Every step but a look for idle streams leaves less to do. -/
theorem Delivers.left_lt (h : e.Delivers machine settings script) {a : Action}
    (hp : e.permits a = true)
    (hsweep : a.isSweep = false) (hs : e.step? a = some e') :
    e'.left machine settings script < e.left machine settings script := by
  cases a with
  | read => exact h.left_read hs
  | stopReading => simp [step?, h.notCancelled] at hs
  | capture => exact h.left_capture hs
  | sweep cutoff => simp [Action.isSweep] at hsweep
  | stopCapture => simp [step?, stopCapture?, h.notCancelled] at hs
  | dispatch => simp [step?, dispatch?, h.dispatch] at hs
  | stopDispatch => simp [step?, stopDispatch?, h.notCancelled] at hs
  | receive output =>
    cases output with
    | packets =>
      obtain ⟨packets, hr, rfl⟩ := Option.map_eq_some_iff.1 hs
      simp only [left, ← h.packets.left_receive? hr]
      omega
    | chunks =>
      obtain ⟨chunks, hr, rfl⟩ := Option.map_eq_some_iff.1 hs
      simp only [left, ← h.chunkLane.left_receive? hr]
      omega
  | receiveFault =>
    obtain ⟨⟨fault, faults⟩, hr, rfl⟩ := Option.map_eq_some_iff.1 hs
    simp only [Queue.receive?] at hr
    split at hr
    · simp at hr
    · rename_i first more hw
      simp only [Option.some.injEq, Prod.mk.injEq] at hr
      obtain ⟨rfl, rfl⟩ := hr
      simp only [left, Queue.left, hw, List.length_cons]
      omega
  | abandon output => simp [permits] at hp
  | cancel => simp [permits] at hp

theorem isSome_handOver? (item : Except SourceFault Record) (hroom : e.source.hasRoom = true) :
    (e.handOver? item).isSome = true := by
  unfold handOver? Queue.send?
  by_cases hreceiver : e.source.hasReceiver = true
  · simp [hreceiver, hroom]
  · simp [hreceiver]

/-- The reader can go on where there is room for what it hands over. -/
theorem isSome_read? (hreading : e.isReading = true)
    (hroom : e.source.hasRoom = true ∨ e.script.items e.settings = []) :
    e.read?.isSome = true := by
  unfold read?
  rw [if_neg (by simp [hreading])]
  have hscript : e.script = ⟨e.script.readings, e.script.fault⟩ := rfl
  split
  · rfl
  · rename_i hr
    rcases hroom with hroom | hitems
    · exact isSome_handOver? _ hroom
    · rw [hscript, hr] at hitems
      simp [Script.items, Script.records] at hitems
  · rename_i hr hf
    rcases hroom with hroom | hitems
    · exact isSome_handOver? _ hroom
    · rw [hscript, hr, hf] at hitems
      simp [Script.items] at hitems
  · rfl

/-- The capture can go on with a task where there is room for what it sends. -/
theorem Delivers.isSome_work? (h : e.Delivers machine settings script)
    (hpackets : e.packets.exit.waiting.length < settings.queueCapacity)
    (hchunks : e.chunks.exit.waiting.length < settings.queueCapacity) (more : List Task) :
    ∀ task : Task, (e.work? more task).isSome = true
  | .classify stream => rfl
  | .sendChunk chunk => by
    simp only [work?, Option.isSome_map]
    exact h.chunkLane.isSome_send? hchunks chunk
  | .sendFrame frame => by
    simp only [work?, Option.isSome_map]
    exact h.packets.isSome_send? hpackets frame

/-- Between two tasks, the reader or the capture can go on unless the capture has stopped. -/
theorem OnCourse.goes_on_between (h : e.OnCourse machine settings script)
    (hcapacity : 0 < e.source.capacity) (htasks : e.tasks = [])
    (hprogress : e.progress ≠ .stopped) : e.read?.isSome = true ∨ e.capture?.isSome = true := by
  cases hp : e.progress with
  | capturing =>
    rcases hw : e.source.waiting with _ | ⟨item, waiting⟩
    · cases hreading : e.isReading with
      | true =>
        have hroom : e.source.hasRoom = true := by
          simpa [Queue.hasRoom, hw] using hcapacity
        exact .inl (isSome_read? hreading (.inl hroom))
      | false =>
        right
        have hopen := h.isOpen.trans hreading
        simp [capture?, htasks, hp, Queue.receive?, hw, hopen]
    · right
      simp [capture?, htasks, hp, Queue.receive?, hw]
  | finishing =>
    right
    simp [capture?, htasks, hp]
  | leaving =>
    cases hreading : e.isReading with
    | true =>
      have hitems := (h.captured (by simp [hp])).1
      rw [← h.settings_eq] at hitems
      exact .inl (isSome_read? hreading (.inr hitems))
    | false =>
      right
      simp [capture?, htasks, hp, hreading]
  | stopped => exact absurd hp hprogress

/-- As long as a session is not over, the reader, the capture or the caller can go on. -/
theorem Delivers.goes_on (h : e.Delivers machine settings script)
    (hcapacity : 0 < settings.queueCapacity)
    (hover : e.isOver = false) :
    ∃ a ∈ [Action.read, .capture, .receive .packets, .receive .chunks],
      (e.step? a).isSome = true := by
  by_cases hpackets : e.packets.exit.waiting = []
  · by_cases hchunks : e.chunks.exit.waiting = []
    · rcases htasks : e.tasks with _ | ⟨task, more⟩
      · have hprogress : e.progress ≠ .stopped := fun hs => by
          simp [isOver, h.stopped hs, hs, h.dispatch, hpackets, hchunks] at hover
        rcases h.goes_on_between (h.source ▸ hcapacity) htasks hprogress with hr | hc
        · exact ⟨.read, by simp, hr⟩
        · exact ⟨.capture, by simp, hc⟩
      · refine ⟨.capture, by simp, ?_⟩
        simp only [step?, capture?, htasks]
        exact h.isSome_work? (by simpa [hpackets]) (by simpa [hchunks]) more task
    · exact ⟨.receive .chunks, by simp, by simpa [step?] using h.chunkLane.isSome_receive? hchunks⟩
  · exact ⟨.receive .packets, by simp, by simpa [step?] using h.packets.isSome_receive? hpackets⟩

theorem left_start (machine : Machine) (settings : Settings) (script : Script) :
    (start (.plain settings machine) script).left machine settings script
      = let frames := framesOf settings script
        let streams := streamsOf machine settings.pages frames
        let chunks := streams.flatMap (chunksOf settings.classifier)
        script.readings.length + 3 * frames.length + streams.length + 2 * chunks.length
          + 4 * script.fault.toList.length + 4 := by
  have hitems : (script.items settings).length
      = (framesOf settings script).length + script.fault.toList.length := by
    simp [Script.items, framesOf]
  have hpackets : (start (.plain settings machine) script).packets.exit =
    .empty settings.queueCapacity := rfl
  have hchunks : (start (.plain settings machine) script).chunks.exit =
    .empty settings.queueCapacity := rfl
  simp only [left, hpackets, hchunks]
  simp only [start, Queue.left, Queue.empty, hitems, Script.size, Progress.left, Bool.toNat_true,
    List.length_nil]
  omega

end Engine

end Trawl.Pipeline
