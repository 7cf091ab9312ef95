import Trawl.Proofs.Pipeline.Steps

/-!
# The course of a session

While nobody cancels a session, its capture takes what the script hands over, all of it and in
order, whenever the reader and the capture do their steps (`Engine.OnCourse`).
-/

namespace Trawl.Pipeline

open Capture (chunksOf framesOf)

/-- What a capture has come to after some frames. -/
def captureOf (machine : Machine) (settings : Settings) (frames : List Frame) : Capture :=
  frames.foldl Capture.takeFrame (.start machine settings)

theorem captureOf_concat (machine : Machine) (settings : Settings) (frames : List Frame)
    (frame : Frame) : captureOf machine settings (frames ++ [frame]) =
      (captureOf machine settings frames).takeFrame frame := by
  rw [captureOf, List.foldl_append]
  rfl

/-- Items that are all records. -/
theorem ok_of_items : ∀ {taken : List Record} {records : List Record} {faults : List SourceFault},
    taken.map Except.ok = records.map Except.ok ++ faults.map Except.error →
      taken = records ∧ faults = []
  | [], [], [], _ => ⟨rfl, rfl⟩
  | [], [], _ :: _, h => by simp at h
  | [], _ :: _, _, h => by simp at h
  | _ :: _, [], [], h => by simp at h
  | _ :: _, [], _ :: _, h => by simp at h
  | r :: taken, r' :: records, faults, h => by
    simp only [List.map_cons, List.cons_append, List.cons.injEq, Except.ok.injEq] at h
    obtain ⟨rfl, hf⟩ := ok_of_items h.2
    exact ⟨by rw [h.1], hf⟩

/-- Items of which one is a fault. -/
theorem error_of_items {fault : SourceFault} {more : List (Except SourceFault Record)} :
    ∀ {taken : List Record} {records : List Record} {faults : List SourceFault},
      taken.map Except.ok ++ Except.error fault :: more
          = records.map Except.ok ++ faults.map Except.error →
        taken = records ∧ ∃ others, faults = fault :: others ∧ more = others.map Except.error
  | [], [], [], h => by simp at h
  | [], [], f :: others, h => by
    simp only [List.map_nil, List.nil_append, List.map_cons, List.cons.injEq,
      Except.error.injEq] at h
    exact ⟨rfl, others, by rw [h.1], h.2⟩
  | [], _ :: _, _, h => by simp at h
  | _ :: _, [], [], h => by simp at h
  | _ :: _, [], _ :: _, h => by simp at h
  | r :: taken, r' :: records, faults, h => by
    simp only [List.map_cons, List.cons_append, List.cons.injEq, Except.ok.injEq] at h
    obtain ⟨rfl, hf⟩ := error_of_items h.2
    exact ⟨by rw [h.1], hf⟩

/-- The records among items come first. -/
theorem prefix_of_items {taken records : List Record} {faults : List SourceFault}
    {more : List (Except SourceFault Record)}
    (h : taken.map Except.ok ++ more = records.map Except.ok ++ faults.map Except.error) :
    taken <+: records := by
  have hnone : faults.filterMap (fun _ => (none : Option Record)) = [] :=
    List.filterMap_eq_nil_iff.2 fun _ _ => rfl
  have hrecords := congrArg (List.filterMap Except.toOption) h
  simp only [List.filterMap_append, List.filterMap_map, Function.comp_def, Except.toOption,
    List.filterMap_some, hnone, List.append_nil] at hrecords
  exact ⟨_, hrecords⟩

namespace Engine

variable {σ τ : Type}

/-- A capture has taken the first of what a queue was given, all records, and the rest waits. -/
structure HasTaken (machine : Machine) (settings : Settings)
    (source : Queue (Except SourceFault Record)) (c : Capture) (taken : List Record) : Prop where
  hasReceiver : source.hasReceiver = true
  history : source.history = taken.map Except.ok ++ source.waiting
  capture : c = captureOf machine settings (taken.map .decode)

/-- Nothing of the script is missing in what was handed over and captured. -/
structure OnCourse (machine : Machine) (settings : Settings) (script : Script) (e : Engine σ τ) :
    Prop where
  settings_eq : e.settings = settings
  handed : e.source.history ++ e.script.items settings = script.items settings
  isOpen : e.source.isOpen = e.isReading
  ended : e.isReading = false → e.script.items settings = []
  capturing : e.progress = .capturing → ∃ taken, HasTaken machine settings e.source e.capture taken
  captured : e.progress ≠ .capturing → e.script.items settings = [] ∧
    e.capture = (captureOf machine settings (framesOf settings script)).finish
  left : e.progress = .leaving ∨ e.progress = .stopped → e.tasks = []
  stopped : e.progress = .stopped → e.isReading = false
  streams : e.streamsCompleted + (e.tasks.flatMap Task.streams).length = e.capture.completed.length
  chunks : e.chunksEmitted + (e.tasks.flatMap (Task.chunks settings.classifier)).length
    = (e.capture.chunks settings.classifier).length

variable {machine : Machine} {settings : Settings} {script : Script} {e e' : Engine σ τ}

theorem onCourse_start (s : Session σ τ) (script : Script) :
    (start s script).OnCourse s.machine s.settings script where
  settings_eq := rfl
  handed := rfl
  isOpen := rfl
  ended := by simp [start]
  capturing _ := ⟨[], rfl, rfl, rfl⟩
  captured h := absurd rfl h
  left h := by simp [start] at h
  stopped h := by simp [start] at h
  streams := rfl
  chunks := rfl

/-- Between two tasks, the totals are those of the capture. -/
theorem OnCourse.totals_between (h : e.OnCourse machine settings script) (htasks : e.tasks = []) :
    e.streamsCompleted = e.capture.completed.length ∧
      e.chunksEmitted = (e.capture.chunks settings.classifier).length := by
  have hstreams := h.streams
  have hchunks := h.chunks
  rw [htasks] at hstreams hchunks
  exact ⟨hstreams, hchunks⟩

/-- The capture is there for what the reader still hands over. -/
theorem OnCourse.capturing_of_item (h : e.OnCourse machine settings script)
    {item : Except SourceFault Record} {more : List (Except SourceFault Record)}
    (hitems : e.script.items settings = item :: more) :
    e.progress = .capturing ∧ e.source.hasReceiver = true := by
  have hcapturing : e.progress = .capturing := by
    by_contra hc
    simp [(h.captured hc).1] at hitems
  obtain ⟨taken, ht⟩ := h.capturing hcapturing
  exact ⟨hcapturing, ht.hasReceiver⟩

theorem OnCourse.read (h : e.OnCourse machine settings script) (hr : e.read? = some e') :
    e'.OnCourse machine settings script := by
  obtain ⟨hreading, hstep⟩ := readStep_of_read? hr
  have hnot : e.progress ≠ .stopped := fun hs => by simp [h.stopped hs] at hreading
  cases hstep with
  | pause hsize hitems =>
    exact { h with
      handed := hitems settings ▸ h.handed
      ended := fun hf => hitems settings ▸ h.ended hf
      captured := fun hc => hitems settings ▸ h.captured hc }
  | @hand script' item hsize hitems hreceiver hroom =>
    rw [h.settings_eq] at hitems
    exact { h with
      handed := by
        rw [← h.handed, hitems]
        simp [Queue.put]
      ended := fun hf => by simp [hreading] at hf
      capturing := fun hc => by
        obtain ⟨taken, ht⟩ := h.capturing hc
        refine ⟨taken, ht.hasReceiver, ?_, ht.capture⟩
        show e.source.history ++ [item] = taken.map Except.ok ++ (e.source.waiting ++ [item])
        rw [ht.history, List.append_assoc]
      captured := fun hc => absurd (h.capturing_of_item hitems).1 hc }
  | @drop script' item hitems hreceiver =>
    rw [h.settings_eq] at hitems
    simp [(h.capturing_of_item hitems).2] at hreceiver
  | stop hitems =>
    exact { h with
      isOpen := rfl
      ended := fun _ => hitems settings
      capturing := fun hc => by
        obtain ⟨taken, ht⟩ := h.capturing hc
        exact ⟨taken, ht.hasReceiver, ht.history, ht.capture⟩
      stopped := fun _ => rfl }

theorem chunks_afterPool (limits : Content.Limits) (c : Capture)
    (result : Reassembly.Pool × List Reassembly.Completed) :
    (c.afterPool result).chunks limits = c.chunks limits ++ result.2.flatMap (chunksOf limits) := by
  simp [Capture.afterPool, Capture.chunks]

theorem captureOf_framesOf (machine : Machine) (settings : Settings) (script : Script) :
    captureOf machine settings ((script.records.map (·.clamp settings.snapshotLength)).map .decode)
      = captureOf machine settings (framesOf settings script) := by
  rw [List.map_map]
  rfl

/-- Completing what is left, once the capture has taken all records. -/
theorem OnCourse.finish (h : e.OnCourse machine settings script) (htasks : e.tasks = [])
    {source : Queue (Except SourceFault Record)} {faults : Queue SessionFault}
    {reported : List SessionFault}
    (hitems : e.script.items settings = []) (hhistory : source.history = e.source.history)
    (hopen : source.isOpen = e.source.isOpen)
    (hcapture : e.capture = captureOf machine settings (framesOf settings script)) :
    OnCourse machine settings script (finish { e with source, faults, reported }) where
  settings_eq := h.settings_eq
  handed := hhistory ▸ h.handed
  isOpen := hopen.trans h.isOpen
  ended _ := hitems
  capturing hc := by simp [Engine.finish] at hc
  captured _ := ⟨hitems, congrArg Capture.finish hcapture⟩
  left hl := by simp [Engine.finish] at hl
  stopped hs := by simp [Engine.finish] at hs
  streams := by
    simp [Engine.finish, afterPool, Capture.afterPool, (h.totals_between htasks).1, Nat.add_comm]
  chunks := by
    simp only [Engine.finish, afterPool, chunks_classify, chunks_afterPool, List.length_append]
    exact congrArg (· + _) (h.totals_between htasks).2

/-- What one more record does while the capture has nothing else to do. -/
theorem OnCourse.takeRecord (h : e.OnCourse machine settings script) (htasks : e.tasks = [])
    (hprogress : e.progress = .capturing) {r : Record} {waiting : List (Except SourceFault Record)}
    (hw : e.source.waiting = .ok r :: waiting) :
    OnCourse machine settings script
      (takeFrame { e with source := { e.source with waiting } } (.decode r)) where
  settings_eq := h.settings_eq
  handed := h.handed
  isOpen := h.isOpen
  ended := h.ended
  capturing _ := by
    obtain ⟨taken, hreceiver, hhistory, hcapture⟩ := h.capturing hprogress
    refine ⟨taken ++ [r], hreceiver, ?_, ?_⟩
    · show e.source.history = _
      rw [hhistory, hw, List.map_append, List.append_assoc]
      rfl
    · show e.capture.takeFrame (.decode r) = _
      rw [hcapture, List.map_append]
      exact (captureOf_concat ..).symm
  captured hc := absurd hprogress hc
  left hl := by
    simp only [Engine.takeFrame, hprogress] at hl
    simp at hl
  stopped hs := by
    simp only [Engine.takeFrame, hprogress] at hs
    simp at hs
  streams := by
    simp [Engine.takeFrame, Capture.takeFrame, Capture.afterPool, Task.streams,
      (h.totals_between htasks).1, Nat.add_comm]
  chunks := by
    simp only [Engine.takeFrame, Capture.takeFrame, List.flatMap_append, chunks_classify,
      chunks_afterPool, List.length_append]
    exact congrArg (· + _) (h.totals_between htasks).2

/-- What the fault of the source, or its end, tells about the records that were taken. -/
theorem OnCourse.taken_eq (h : e.OnCourse machine settings script) {taken : List Record}
    (ht : HasTaken machine settings e.source e.capture taken) :
    (e.source.waiting = [] → e.script.items settings = [] →
      script.fault = none ∧ e.capture = captureOf machine settings (framesOf settings script)) ∧
    ∀ fault more, e.source.waiting = .error fault :: more →
      e.script.items settings = [] ∧ script.fault = some fault ∧ more = [] ∧
        e.capture = captureOf machine settings (framesOf settings script) := by
  have hhanded : taken.map Except.ok ++ e.source.waiting ++ e.script.items settings
      = (script.records.map (·.clamp settings.snapshotLength)).map Except.ok
        ++ script.fault.toList.map Except.error := ht.history ▸ h.handed
  refine ⟨fun hw hitems => ?_, fun fault more hw => ?_⟩
  · rw [hw, hitems, List.append_nil, List.append_nil] at hhanded
    obtain ⟨htaken, hfault⟩ := ok_of_items hhanded
    exact ⟨Option.toList_eq_nil_iff.1 hfault, by rw [ht.capture, htaken, captureOf_framesOf]⟩
  · rw [hw, List.append_assoc, List.cons_append] at hhanded
    obtain ⟨htaken, others, hfault, hmore⟩ := error_of_items hhanded
    rcases hf : script.fault with _ | f
    · simp [hf] at hfault
    · rw [hf, Option.toList_some, List.cons.injEq] at hfault
      rw [← hfault.2, List.map_nil, List.append_eq_nil_iff] at hmore
      exact ⟨hmore.2, by rw [hfault.1], hmore.1, by rw [ht.capture, htaken, captureOf_framesOf]⟩

theorem OnCourse.capture (h : e.OnCourse machine settings script) (hc : e.capture? = some e') :
    e'.OnCourse machine settings script := by
  cases captureStep_of_capture? hc with
  | @classify stream more htasks =>
    have hstreams := h.streams
    have hchunks := h.chunks
    rw [htasks] at hstreams hchunks
    exact { h with
      left := fun hl => absurd (h.left hl) (by simp [htasks])
      streams := by
        rw [← hstreams]
        simp [Task.streams, Nat.add_assoc, Nat.add_comm]
      chunks := by
        rw [← hchunks]
        simp [Task.chunks, h.settings_eq] }
  | @sendChunk chunk more chunks htasks hsend =>
    have hstreams := h.streams
    have hchunks := h.chunks
    rw [htasks] at hstreams hchunks
    exact { h with
      left := fun hl => absurd (h.left hl) (by simp [htasks])
      streams := hstreams
      chunks := by
        rw [← hchunks]
        simp [Task.chunks, Nat.add_assoc, Nat.add_comm] }
  | @sendFrame frame more packets htasks hsend =>
    have hstreams := h.streams
    have hchunks := h.chunks
    rw [htasks] at hstreams hchunks
    exact { h with
      left := fun hl => absurd (h.left hl) (by simp [htasks])
      streams := hstreams
      chunks := hchunks }
  | takeRecord htasks hprogress hw => exact h.takeRecord htasks hprogress hw
  | @takeFault fault waiting htasks hprogress hw =>
    obtain ⟨taken, ht⟩ := h.capturing hprogress
    obtain ⟨hitems, -, -, hcapture⟩ := (h.taken_eq ht).2 fault waiting hw
    exact h.finish htasks hitems rfl rfl hcapture
  | finish htasks hprogress hw hopen =>
    obtain ⟨taken, ht⟩ := h.capturing hprogress
    have hitems := h.ended (h.isOpen.symm.trans hopen)
    exact h.finish htasks hitems rfl rfl ((h.taken_eq ht).1 hw hitems).2
  | leave htasks hprogress =>
    obtain ⟨hitems, hcapture⟩ := h.captured (by simp [hprogress])
    have hstreams := h.streams
    have hchunks := h.chunks
    rw [htasks] at hstreams hchunks
    exact { h with
      capturing := fun hc => by simp [Engine.leave] at hc
      captured := fun _ => ⟨hitems, hcapture⟩
      left := fun _ => rfl
      stopped := fun hs => by simp [Engine.leave] at hs
      streams := hstreams
      chunks := hchunks }
  | stop htasks hprogress hreading =>
    obtain ⟨hitems, hcapture⟩ := h.captured (by simp [hprogress])
    exact { h with
      capturing := fun hc => by simp [Engine.stop] at hc
      captured := fun _ => ⟨hitems, hcapture⟩
      left := fun _ => htasks
      stopped := fun _ => hreading }

/-- What was captured is the beginning of what the script gives in sequence. -/
theorem OnCourse.captured_prefix (h : e.OnCourse machine settings script) :
    e.capture.frames.reverse <+: framesOf settings script ∧
      e.capture.completed.reverse
        <+: Capture.streamsOf machine settings.pages (framesOf settings script) := by
  by_cases hprogress : e.progress = .capturing
  · obtain ⟨taken, ht⟩ := h.capturing hprogress
    have hhanded := h.handed
    rw [ht.history, List.append_assoc] at hhanded
    obtain ⟨more, hmore⟩ := (prefix_of_items hhanded).map Frame.decode
    rw [List.map_map] at hmore
    have hframes : taken.map .decode ++ more = framesOf settings script := hmore
    rw [← hframes, ht.capture]
    refine ⟨?_, ?_⟩
    · rw [captureOf, Capture.foldl_takeFrame]
      exact ⟨more, by simp [Capture.start]⟩
    · rw [← Capture.completed_finish]
      exact Capture.completed_prefix machine settings (taken.map .decode) more
  · obtain ⟨-, hcapture⟩ := h.captured hprogress
    rw [hcapture, captureOf, Capture.frames_finish, Capture.completed_finish,
      List.reverse_reverse]
    exact ⟨List.prefix_refl _, List.prefix_refl _⟩

/-- So is the content of what was captured. -/
theorem OnCourse.content_prefix (h : e.OnCourse machine settings script) :
    e.capture.chunks settings.classifier
      <+: (Capture.streamsOf machine settings.pages (framesOf settings script)).flatMap
        (chunksOf settings.classifier) := by
  obtain ⟨more, hmore⟩ := h.captured_prefix.2
  rw [← hmore, List.flatMap_append]
  exact List.prefix_append ..

/-- When the capture has stopped, what it captured and counted is what the script gives in sequence.
-/
theorem OnCourse.captured_of_stopped (h : e.OnCourse machine settings script)
    (hprogress : e.progress = .stopped) :
    let frames := framesOf settings script
    let streams := Capture.streamsOf machine settings.pages frames
    let chunks := streams.flatMap (chunksOf settings.classifier)
    e.tasks = [] ∧ e.capture.frames.reverse = frames ∧
      e.capture.chunks settings.classifier = chunks ∧ e.streamsCompleted = streams.length ∧
      e.chunksEmitted = chunks.length ∧
      e.capture.pool.evictions = Capture.evictionsOf machine settings.pages frames := by
  intro frames streams chunks
  have htasks := h.left (.inr hprogress)
  obtain ⟨hstreams, hemitted⟩ := h.totals_between htasks
  have hcapture : e.capture = (captureOf machine settings frames).finish :=
    (h.captured (by simp [hprogress])).2
  have hcompleted : e.capture.completed.reverse = streams := by
    rw [hcapture, captureOf, Capture.completed_finish]
  have hcontent : e.capture.chunks settings.classifier = chunks := by
    rw [Capture.chunks, hcompleted]
  rw [← List.length_reverse, hcompleted] at hstreams
  rw [hcontent] at hemitted
  refine ⟨htasks, ?_, hcontent, hstreams, hemitted, ?_⟩
  · rw [hcapture, captureOf, Capture.frames_finish, List.reverse_reverse]
  · rw [hcapture, captureOf, Capture.evictions_finish]

end Engine

end Trawl.Pipeline
