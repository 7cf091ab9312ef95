import Trawl.Proofs.Pipeline.Downstream
import Trawl.Proofs.Pipeline.Faults
import Trawl.Proofs.Pipeline.Pauses

/-!
# What a session comes to

A session that is over, whatever happened in which order, has come to what running it one step
after the other gives (`Engine.outcome_eq_run`): the same was captured, and each output got the same
unless the predicate of the other one failed; where none failed, the caller heard of the same faults
too. The session can always come to that (`Engine.leads_to_report`).
-/

namespace Trawl

open Capture (chunksOf framesOf streamsOf)

namespace Session

open Pipeline (Queue)

variable {σ τ : Type}

/-! ### The faults of a run in sequence -/

/-- A caller at the queue of faults has taken each before the next one is reported. -/
theorem history_tell_true : ∀ (reported : List SessionFault) {q : Queue SessionFault}, q.InUse 1 →
    q.waiting = [] → (reported.foldl (tell true) q).history = q.history ++ reported
  | [], _, _, _ => (List.append_nil _).symm
  | fault :: more, q, hq, hw => by
    have htell : tell true q fault = { q.put fault with waiting := [] } := by
      simp [tell, Queue.offer, Queue.hasRoom, Queue.put, Queue.receive?, hq.hasReceiver,
        hq.capacity_eq, hw]
    have huse : (tell true q fault).InUse 1 := by
      rw [htell]
      exact ⟨hq.capacity_eq, hq.hasReceiver, List.nil_suffix⟩
    rw [List.foldl_cons, history_tell_true more huse (by rw [htell]), htell]
    exact List.append_assoc q.history [fault] more

/-- Where the caller is elsewhere, what is reported finds the queue full once something waits. -/
theorem foldl_tell_false : ∀ (reported : List SessionFault) {q : Queue SessionFault}, q.InUse 1 →
    q.waiting ≠ [] → reported.foldl (tell false) q = q
  | [], _, _, _ => rfl
  | fault :: more, q, hq, hw => by
    have htell : tell false q fault = q := by
      rcases Pipeline.Engine.offer_cases hq fault with ⟨hnone, -⟩ | ⟨-, hlost⟩
      · exact absurd hnone hw
      · exact hlost
    rw [List.foldl_cons, htell, foldl_tell_false more hq hw]

/-- A caller at the queue of faults hears of all that are reported, and another one of the first. -/
theorem heard_eq (atQueue : Bool) (reported : List SessionFault) :
    heard atQueue reported = if atQueue then reported else reported.take 1 := by
  cases atQueue with
  | true => exact history_tell_true reported (Queue.inUse_empty 1) rfl
  | false =>
    rcases reported with _ | ⟨fault, more⟩
    · rfl
    · have hq := (Queue.inUse_empty 1).put fault
      have htold : tell false (.empty 1) fault = (Queue.empty 1).put fault := rfl
      rw [heard, List.foldl_cons, htold, foldl_tell_false more hq (List.cons_ne_nil _ _)]
      rfl

variable (s : Session σ τ) (script : Script)

/-- What passes the predicate for frames when a session runs in sequence. -/
def keptFrames : Filtered Frame :=
  filterIfAny s.packetPredicate (Capture.run s.machine s.settings script).frames.reverse

/-- What passes the predicate for content. -/
def keptChunks : Filtered Content.Chunk :=
  filterIfAny s.chunkPredicate
    ((Capture.run s.machine s.settings script).chunks s.settings.classifier)

/-- Where no predicate fails, the caller hears of the fault of the source. -/
theorem faults_of_unfailing (h : failure? (s.keptFrames script) (s.keptChunks script) = none) :
    s.faults script none = script.fault.toList.map .source := by
  obtain ⟨hframes, hchunks⟩ := Capture.captured_untilPause s.machine s.settings script
  obtain ⟨hpackets, hcontent⟩ := failure?_eq_none.1 h
  have hnone : s.failureBeforePause? script = none :=
    failure?_eq_none.2 ⟨failure_filterIfAny_mono hframes hpackets,
      failure_filterIfAny_mono hchunks hcontent⟩
  rw [faults, hnone]
  simp only [Option.toList_none, List.append_nil, heard_eq]
  rcases script.fault with _ | fault
  · simp
  · simp

end Session

namespace Pipeline

namespace Engine

variable {σ τ : Type} {s : Session σ τ} {script : Script} {e : Engine σ τ}

/-- What a session has come to, with the faults that its caller can take. -/
def outcome (e : Engine σ τ) : Report where
  faults := e.faults.history
  packets := e.packets.delivered
  chunks := e.chunks.delivered
  totals := e.totals

/-- A single fault always finds room. -/
theorem Heard.history_eq (h : e.Heard) (hone : e.reported.length ≤ 1) :
    e.faults.history = e.reported := by
  have hsublist := h.sublist
  have hfirst := h.first
  match hreported : e.reported, hone with
  | [], _ =>
    rw [hreported] at hsublist
    exact List.sublist_nil.1 hsublist
  | [fault], _ =>
    rw [hreported] at hsublist hfirst
    rcases List.sublist_singleton.1 hsublist with hnone | hsame
    · simp [hnone] at hfirst
    · exact hsame

/-- When a session is over, the caller has been handed what the predicate of an output accepts of
all that was captured, unless the predicate of the other output failed. -/
theorem Undisturbed.delivered_of_isOver (h : e.Undisturbed s script) (hover : e.isOver = true) :
    let frames := framesOf s.settings script
    let chunks :=
      (streamsOf s.machine s.settings.pages frames).flatMap (chunksOf s.settings.classifier)
    let keptFrames := filterIfAny s.packetPredicate frames
    let keptChunks := filterIfAny s.chunkPredicate chunks
    (keptChunks.failure = none → e.packets.delivered = s.delivered .packets keptFrames) ∧
      (keptFrames.failure = none → e.chunks.delivered = s.delivered .chunks keptChunks) := by
  intro frames chunks keptFrames keptChunks
  simp only [isOver, Bool.and_eq_true, decide_eq_true_eq] at hover
  obtain ⟨⟨⟨-, hprogress⟩, hstopped⟩, -⟩ := hover.1
  obtain ⟨htasks, hframes, hcontent, -⟩ := h.captured_of_stopped hprogress
  obtain ⟨hpackets, hchunks⟩ := h.sent_between htasks
  rw [hframes] at hpackets
  rw [hcontent] at hchunks
  obtain ⟨hpacketsNil, hchunksNil⟩ := h.failures_eq_nil h.filters rfl rfl
  have hended := h.filters.ended trivial hstopped
  refine ⟨fun hnone => ?_, fun hnone => ?_⟩
  · have hother := hchunksNil hnone
    refine hpackets.delivered_eq h.filters.packets (by simp [hstopped]) ?_ fun htaken hloses => ?_
    · exact hended.imp And.left fun hf => hf.elim id (absurd hother)
    · obtain ⟨failed, hfailed⟩ := hloses.failed htaken
      cases failed with
      | packets => exact hfailed
      | chunks => exact absurd hother hfailed
  · have hother := hpacketsNil hnone
    refine hchunks.delivered_eq h.filters.chunks (by simp [hstopped]) ?_ fun htaken hloses => ?_
    · exact hended.imp And.right fun hf => hf.elim (absurd hother) id
    · obtain ⟨failed, hfailed⟩ := hloses.failed htaken
      cases failed with
      | packets => exact absurd hother hfailed
      | chunks => exact hfailed

/-- When a session is over and no predicate has failed, the fault of the source was reported. -/
theorem Undisturbed.reported_of_isOver (h : e.Undisturbed s script) (hover : e.isOver = true)
    (hnone : ∀ output, e.failures output = []) :
    e.reported = script.fault.toList.map .source := by
  simp only [isOver, Bool.and_eq_true, decide_eq_true_eq] at hover
  rw [h.reports hnone, if_neg (by simp [hover.1.1.1.2])]

section Runs

variable {machine : Machine} {clock : Nat → Nat} (hclock : StrictMono clock)
  (hmachine : s.machine.paused script.readings = machine.showing clock)
  (hlively : Capture.staysLively s.settings (.start s.machine s.settings) script.readings = true)
include hclock hmachine hlively

theorem endures_on (hendures : s.settings.onPredicateFailure = .keepCapturing ∨
    Session.failure? (s.keptFrames script) (s.keptChunks script) = none) :
    Session.Endures { s with machine } script := by
  obtain ⟨hframes, -, hcontent, -⟩ := Capture.captured_run hclock hmachine hlively
  rw [Session.keptFrames, Session.keptChunks, hframes, hcontent] at hendures
  exact hendures

section Over

variable (h : e.Undisturbed { s with machine } script) (hover : e.isOver = true)
include h hover

theorem captured_eq_run : e.totals.captured = (s.run script).totals.captured := by
  let capture := Capture.run s.machine s.settings script
  obtain ⟨hframes, hcompleted, hcontent, hevictions⟩ :=
    Capture.captured_run hclock hmachine hlively
  rw [h.captured_of_isOver hover]
  show capturedOf machine s.settings script = (capture.frames.length, capture.completed.length,
    (capture.chunks s.settings.classifier).length, capture.pool.evictions)
  rw [← List.length_reverse, hframes, ← capture.completed.length_reverse, hcompleted, hcontent,
    hevictions]
  rfl

theorem delivered_eq_run :
    ((s.keptChunks script).failure = none → e.packets.delivered = (s.run script).packets) ∧
      ((s.keptFrames script).failure = none → e.chunks.delivered = (s.run script).chunks) := by
  obtain ⟨hframes, -, hcontent, -⟩ := Capture.captured_run hclock hmachine hlively
  have hdelivered := h.delivered_of_isOver hover
  dsimp only at hdelivered
  rw [← hcontent, ← hframes] at hdelivered
  exact hdelivered

theorem faults_eq_run
    (hnone : Session.failure? (s.keptFrames script) (s.keptChunks script) = none)
    (hheard : e.Heard) : e.faults.history = (s.run script).faults := by
  obtain ⟨hframes, -, hcontent, -⟩ := Capture.captured_run hclock hmachine hlively
  obtain ⟨hframesNone, hchunksNone⟩ := Session.failure?_eq_none.1 hnone
  have hfailures := h.failures_eq_nil h.filters rfl rfl
  dsimp only at hfailures
  rw [← hcontent, ← hframes] at hfailures
  have hreported : e.reported = script.fault.toList.map .source :=
    h.reported_of_isOver hover fun
      | .packets => hfailures.1 hframesNone
      | .chunks => hfailures.2 hchunksNone
  have hreport : (s.run script).faults = s.faults script none :=
    congrArg (s.faults script) hnone
  rw [hreport, s.faults_of_unfailing script hnone, hheard.history_eq ?_, hreported]
  rw [hreported, List.length_map]
  exact script.fault.length_toList_le

end Over

/-- Take a machine on which the times of the records come in the same order as on the machine of a
session with all pauses of its source, and suppose that no pause finds an idle stream and that the
predicates do not end the session. Whatever its parts do on that machine, and in whatever order, if
nobody cancels it and the caller keeps to its outputs, then it has captured in the end what running
it in sequence captures. Each output got the same, unless the predicate of the other one failed.
Where no predicate failed, it has come to the same in everything. -/
theorem outcome_eq_run (hendures : s.settings.onPredicateFailure = .keepCapturing ∨
      Session.failure? (s.keptFrames script) (s.keptChunks script) = none) {actions : List Action}
    (hrun : (start { s with machine } script).run? actions = some e)
    (hcalm : (start { s with machine } script).isCalm actions = true) (hover : e.isOver = true) :
    let frames := s.keptFrames script
    let chunks := s.keptChunks script
    let report := s.run script
    e.totals.captured = report.totals.captured ∧
      (chunks.failure = none → e.outcome.packets = report.packets) ∧
      (frames.failure = none → e.outcome.chunks = report.chunks) ∧
      (Session.failure? frames chunks = none → e.outcome = report) := by
  intro frames chunks report
  have h := (undisturbed_start { s with machine } script).run
    (endures_on hclock hmachine hlively hendures) hrun hcalm
  have hcaptured := captured_eq_run hclock hmachine hlively h hover
  obtain ⟨hpackets, hchunks⟩ := delivered_eq_run hclock hmachine hlively h hover
  refine ⟨hcaptured, hpackets, hchunks, fun hnone => ?_⟩
  obtain ⟨hframesNone, hchunksNone⟩ := Session.failure?_eq_none.1 hnone
  replace hpackets := hpackets hchunksNone
  replace hchunks := hchunks hframesNone
  have hheard := ((heard_start { s with machine } script).run hrun).1
  have hfaults := faults_eq_run hclock hmachine hlively h hover hnone hheard
  have htotals : e.totals = report.totals := by
    refine Totals.ext_captured hcaptured ?_ ?_
    · exact h.filters.packets.forwarded_eq.trans (congrArg List.length hpackets)
    · exact h.filters.chunks.forwarded_eq.trans (congrArg List.length hchunks)
  rw [outcome, hfaults, hpackets, hchunks, htotals]

end Runs

/-- On a machine whose clock shows every nanosecond and whose table lists streams as they were
opened, a session with valid settings, in which no pause finds an idle stream and no predicate
fails, can come to what running it in sequence gives. -/
theorem leads_to_report (hvalid : s.settings.fault? = none) (hsteady : s.machine = .steady)
    (hlively : Capture.staysLively s.settings (.start s.machine s.settings) script.readings = true)
    (hunfailing : Session.failure? (s.keptFrames script) (s.keptChunks script) = none) :
    ∃ e, (start s script).Leads e ∧ e.isOver = true ∧ e.outcome = s.run script := by
  have hclock := strictMono_moment script.readings
  have hmachine : s.machine.paused script.readings
      = s.machine.showing (moment script.readings) := by
    rw [hsteady, Machine.paused_steady]
  have hendures := endures_on hclock hmachine hlively (.inr hunfailing)
  obtain ⟨e, ⟨actions, hown, hrun⟩, hover⟩ := (undisturbed_start s script).comes_to_end hendures
    (queueCapacity_pos hvalid) (dispatchBurst_pos hvalid)
  have hcalm := isCalm_of_isOwn (start s script) hown
  have hends := outcome_eq_run hclock hmachine hlively (.inr hunfailing) hrun hcalm hover
  exact ⟨e, ⟨actions, hown, hrun⟩, hover, hends.2.2.2 hunfailing⟩

end Engine

end Pipeline

end Trawl
