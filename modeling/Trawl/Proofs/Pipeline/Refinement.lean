import Trawl.Proofs.Pipeline.Progress

/-!
# A session that is left to itself

Without predicates, and with a caller that takes what comes, a session hands out what capturing in
sequence gives, in whatever order the reader, the capture and the caller act: at any time a
beginning of it (`Engine.Delivers.received_prefix`), and all of it in the end
(`Engine.Delivers.received_of_isOver`).
-/

namespace Trawl.Pipeline

open Capture (chunksOf framesOf streamsOf)

namespace Engine

variable {σ τ : Type} {machine : Machine} {settings : Settings} {script : Script}
  {e e' : Engine σ τ}

/-- A run that leaves a session to itself keeps delivering, and its steps leave less to do. -/
theorem Delivers.run : ∀ {actions : List Action} {e : Engine σ τ},
    e.Delivers machine settings script → e.run? actions = some e' → e.isCalm actions = true →
      e'.Delivers machine settings script ∧
        actions.countP (!·.isSweep) + e'.left machine settings script
          ≤ e.left machine settings script
  | [], e, h, hrun, _ => by
    obtain rfl : e = e' := Option.some.inj hrun
    exact ⟨h, by simp⟩
  | a :: actions, e, h, hrun, hcalm => by
    rw [run?_cons] at hrun
    obtain ⟨between, hs, hrun⟩ := Option.bind_eq_some_iff.1 hrun
    simp only [isCalm, hs, Option.all_some, Bool.and_eq_true] at hcalm
    obtain ⟨hend, hcount⟩ := Delivers.run (h.step hcalm.1 hs) hrun hcalm.2
    refine ⟨hend, ?_⟩
    rw [List.countP_cons]
    cases hsweep : a.isSweep with
    | true =>
      cases a with
      | sweep cutoff =>
        obtain rfl : between = e := sweep?_calm hcalm.1 hs
        simpa [hsweep] using hcount
      | _ => simp [Action.isSweep] at hsweep
    | false =>
      have := h.left_lt hcalm.1 hsweep hs
      simp only [Bool.not_false, if_true]
      omega

theorem received_prefix_of_sent {α : Type} {q : Queue α} {capacity : Nat} (h : q.InUse capacity)
    {pending all captured : List α} (hsent : q.history ++ pending = captured)
    (hcaptured : captured <+: all) : q.received <+: all :=
  (h.received_prefix.trans ⟨pending, hsent⟩).trans hcaptured

/-- What the caller has at any time is the beginning of what capturing in sequence gives. -/
theorem Delivers.received_prefix (h : e.Delivers machine settings script) :
    e.packets.received <+: framesOf settings script ∧
      e.chunks.received <+: (streamsOf machine settings.pages (framesOf settings script)).flatMap
        (chunksOf settings.classifier) ∧
      e.faultsReceived <+: script.fault.toList.map .source := by
  refine ⟨received_prefix_of_sent h.packets.exit h.framesSent h.captured_prefix.1,
    received_prefix_of_sent h.chunkLane.exit h.chunksSent h.content_prefix,
    h.faultQueue.received_prefix.trans ?_⟩
  by_cases hprogress : e.progress = .capturing
  · rw [h.noFault hprogress]
    exact List.nil_prefix
  · exact h.fault hprogress ▸ List.prefix_refl _

/-- When a session is over, the caller has everything. -/
theorem Delivers.received_of_isOver (h : e.Delivers machine settings script)
    (hover : e.isOver = true) :
    let frames := framesOf settings script
    let streams := streamsOf machine settings.pages frames
    let chunks := streams.flatMap (chunksOf settings.classifier)
    e.packets.received = frames ∧ e.chunks.received = chunks ∧
      e.faults.history = script.fault.toList.map .source ∧
      e.totals = ⟨frames.length, frames.length, streams.length, chunks.length, chunks.length,
        Capture.evictionsOf machine settings.pages frames⟩ := by
  intro frames streams chunks
  simp only [isOver, Bool.and_eq_true, decide_eq_true_eq, List.isEmpty_iff] at hover
  obtain ⟨⟨⟨-, hprogress⟩, -⟩, hpackets⟩ := hover.1
  obtain ⟨htasks, hcaptured, hcontent, hstreams, hemitted, hevictions⟩ :=
    h.captured_of_stopped hprogress
  obtain ⟨hframesSent, hchunksSent⟩ := h.sent_between htasks
  rw [hcaptured] at hframesSent
  rw [hcontent] at hchunksSent
  have hread : e.capture.frames.length = frames.length := by
    rw [← List.length_reverse, hcaptured]
  refine ⟨(h.packets.exit.received_eq hpackets).trans hframesSent,
    (h.chunkLane.exit.received_eq hover.2).trans hchunksSent, h.fault (by simp [hprogress]), ?_⟩
  rw [totals, h.packets.forwarded, h.chunkLane.forwarded, hframesSent, hchunksSent, hstreams,
    hemitted, hevictions, hread]

/-- A count that has to be positive is so where settings are valid. -/
theorem pos_of_valid {settings : Settings} (h : settings.fault? = none) {name : String} {n : Nat}
    (hmem : (name, n) ∈ settings.positives) : 0 < n := by
  unfold Settings.fault? at h
  rw [Option.map_eq_none_iff, List.find?_eq_none] at h
  simpa [Nat.pos_iff_ne_zero] using h (name, n) hmem

theorem queueCapacity_pos {settings : Settings} (h : settings.fault? = none) :
    0 < settings.queueCapacity :=
  pos_of_valid h (show ("queue_capacity", _) ∈ _ by simp [Settings.positives, Settings.counts])

theorem dispatchBurst_pos {settings : Settings} (h : settings.fault? = none) :
    0 < settings.dispatchBurst :=
  pos_of_valid h (show ("dispatch_burst", _) ∈ _ by simp [Settings.positives, Settings.counts])

/-- A session without predicates, which nobody cancels and whose caller takes what comes, hands out
what capturing in sequence gives: the frames of all records and the content of the streams that one
pool completes. That holds on every machine, whether or not its clock stands still and however its
table lists streams, with a pool that goes by the same order of times and of streams; which that is
does not matter for a clock that never stands still (`Capture.streamsOf_perm`). It does so in every
order of the steps of the reader, the capture and the caller. As long as it is not over, one of them
can go on, and after so many steps it is over. -/
theorem run_refines_sequence (hvalid : settings.fault? = none) (script : Script) (machine : Machine)
    {clock : Nat → Nat} (hclock : StrictMono clock) {actions : List Action}
    {e : Engine Unit Unit} (hrun : (start (.plain settings machine) script).run? actions = some e)
    (hcalm : (start (.plain settings machine) script).isCalm actions = true) :
    let frames := framesOf settings script
    let streams := streamsOf (machine.showing clock) settings.pages frames
    let chunks := streams.flatMap (chunksOf settings.classifier)
    let faults := script.fault.toList.map SessionFault.source
    (e.packets.received <+: frames ∧ e.chunks.received <+: chunks ∧ e.faultsReceived <+: faults) ∧
      (e.isOver = true → e.packets.received = frames ∧ e.chunks.received = chunks ∧
        e.faults.history = faults ∧
        e.totals = ⟨frames.length, frames.length, streams.length, chunks.length, chunks.length,
          Capture.evictionsOf (machine.showing clock) settings.pages frames⟩) ∧
      (e.isOver = false → ∃ a ∈ [Action.read, .capture, .receive .packets, .receive .chunks],
        (e.step? a).isSome = true) ∧
      actions.countP (!·.isSweep) ≤ script.readings.length + 3 * frames.length + streams.length
        + 2 * chunks.length + 4 * faults.length + 4 := by
  intro frames streams chunks faults
  have hstreams : streams = streamsOf machine settings.pages frames :=
    Capture.streamsOf_showing hclock machine settings.pages frames
  obtain ⟨h, hcount⟩ := (delivers_start machine settings script).run hrun hcalm
  rw [left_start] at hcount
  simp only [chunks, faults, hstreams, List.length_map,
    Capture.evictionsOf_showing hclock machine settings.pages]
  exact ⟨h.received_prefix, h.received_of_isOver, h.goes_on (queueCapacity_pos hvalid),
    Nat.le_trans (Nat.le_add_right _ _) hcount⟩

/-- One segment that closes its stream, a pause and a fault, through queues of one item. -/
theorem run_of_one_segment :
    let settings : Settings := { queueCapacity := 1 }
    let r : Record := ⟨none, linkRawIP,
      [0x45, 0, 0, 42, 0, 0, 0, 0, 64, 6, 0, 0, 10, 0, 0, 1, 10, 0, 0, 2,
        0x10, 0, 0, 80, 0, 0, 0, 1, 0, 0, 0, 0, 0x50, 0x11, 0, 0, 0, 0, 0, 0, 104, 105], 42, 0⟩
    let script : Script := ⟨[.record r, .timedOut 5], some (.reported "broken")⟩
    ∃ e, (start (.plain settings .steady) script).run? [.read, .read, .capture, .capture, .capture,
        .capture, .sweep 0, .receive .chunks, .read, .capture, .receive .packets, .capture, .read,
        .capture, .receiveFault] = some e ∧
      e.packets.received = [.decode r] ∧ e.chunks.received = [⟨"text/plain", [104, 105]⟩] ∧
      e.faults.history = [.source (.reported "broken")] := by
  intro settings r script
  generalize hactions : ([.read, .read, .capture, .capture, .capture, .capture, .sweep 0,
    .receive .chunks, .read, .capture, .receive .packets, .capture, .read, .capture,
    .receiveFault] : List Action) = actions
  have hends : ((start (.plain settings .steady) script).run? actions).map isOver = some true := by
    subst hactions
    decide +kernel
  have hcalm : (start (.plain settings .steady) script).isCalm actions = true := by
    subst hactions
    decide +kernel
  obtain ⟨e, hrun, hover⟩ := Option.map_eq_some_iff.1 hends
  obtain ⟨hpackets, hchunks, hfaults, -⟩ :=
    (run_refines_sequence (by decide +kernel) script .steady strictMono_id hrun hcalm).2.1 hover
  exact ⟨e, hrun, hpackets.trans (by decide +kernel), hchunks.trans (by decide +kernel), hfaults⟩

end Engine

end Trawl.Pipeline
