import Trawl.Proofs.Pipeline.Ending
import Trawl.Proofs.Pipeline.Refinement

/-!
# What is captured whatever happens downstream

Predicates that cannot end a session, and outputs that nobody takes, make no difference to what is
captured (`Engine.captured_downstream`): the session can always come to its end, and where two
sessions with the same settings have read the same script to its end they have counted the same
frames, streams, pieces of content and evictions, in whatever order things happened in either.
-/

namespace Trawl

/-- The totals of what was captured, whatever became of it then. -/
def Totals.captured (t : Totals) : Nat × Nat × Nat × Nat :=
  ⟨t.framesRead, t.streamsCompleted, t.chunksEmitted, t.flowsEvicted⟩

theorem Totals.ext_captured {t t' : Totals} (h : t.captured = t'.captured)
    (hpackets : t.packetsDelivered = t'.packetsDelivered)
    (hchunks : t.chunksDelivered = t'.chunksDelivered) : t = t' := by
  cases t
  cases t'
  simp_all [captured]

/-- A session without predicates tolerates them all. -/
theorem Session.tolerates_plain (settings : Settings) (machine : Machine) :
    (plain settings machine).Tolerates :=
  .inr ⟨fun _ hp => absurd hp.symm (Option.some_ne_none _),
    fun _ hp => absurd hp.symm (Option.some_ne_none _)⟩

namespace Pipeline

open Capture (chunksOf framesOf streamsOf)

/-- What was handed to the caller has been counted. -/
theorem Lane.Follows.forwarded_eq {σ α : Type} {p : Option (Predicate σ α)} {calm : Prop}
    {reported : List String} {served stopped : Prop} {l : Lane σ α}
    (h : l.Follows p calm reported served stopped) : l.forwarded = l.delivered.length := by
  cases l with
  | direct q => rfl
  | filtered f =>
    obtain ⟨-, ⟨judged, hf⟩, -⟩ := h
    exact hf.forwarded

/-- No more is handed to the caller than has arrived. -/
theorem Lane.Follows.forwarded_le {σ α : Type} {p : Option (Predicate σ α)} {calm : Prop}
    {reported : List String} {served stopped : Prop} {l : Lane σ α}
    (h : l.Follows p calm reported served stopped) : l.forwarded ≤ l.arrived.length := by
  rw [h.forwarded_eq]
  cases l with
  | direct q => exact Nat.le_refl _
  | filtered f =>
    obtain rfl := h.1
    calc (Lane.filtered f).delivered.length
        ≤ (f.predicate.filter (Lane.filtered f).arrived).accepted.length :=
        h.refines.delivered.length_le
      _ ≤ (Lane.filtered f).arrived.length := by
        rw [Predicate.filter_eq]
        exact f.predicate.length_accepted_judgeAll ..

namespace Engine

variable {σ τ : Type} {s : Session σ τ} {machine other : Machine} {settings : Settings}
  {script : Script} {e : Engine σ τ}

/-- The totals of what a script gives in sequence. -/
def capturedOf (machine : Machine) (settings : Settings) (script : Script) :
    Nat × Nat × Nat × Nat :=
  let frames := framesOf settings script
  let streams := streamsOf machine settings.pages frames
  ⟨frames.length, streams.length, (streams.flatMap (chunksOf settings.classifier)).length,
    Capture.evictionsOf machine settings.pages frames⟩

/-- They are the same on all machines with a clock that never stands still. -/
theorem capturedOf_eq (h : machine = other ∨ StrictMono other.clock ∧ StrictMono machine.clock)
    (settings : Settings) (script : Script) :
    capturedOf machine settings script = capturedOf other settings script := by
  obtain rfl | ⟨hother, hclock⟩ := h
  · rfl
  obtain ⟨⟨completed, left, left', hstreams, hstreams', hleft⟩, hevictions⟩ :=
    Capture.streamsOf_perm hclock hother settings.pages (framesOf settings script)
  have hperm : (completed ++ left).Perm (completed ++ left') := hleft.append_left completed
  simp only [capturedOf, hstreams, hstreams', hevictions, hperm.length_eq,
    (hperm.flatMap_right _).length_eq]

/-- When a session is over, what was captured is what the script gives in sequence. -/
theorem OnCourse.captured_of_isOver (h : e.OnCourse machine settings script)
    (hover : e.isOver = true) : e.totals.captured = capturedOf machine settings script := by
  have hprogress : e.progress = .stopped := by
    simp only [isOver, Bool.and_eq_true, decide_eq_true_eq] at hover
    exact hover.1.1.1.2
  obtain ⟨-, hframes, -, hstreams, hemitted, hevictions⟩ := h.captured_of_stopped hprogress
  have hread : e.capture.frames.length = (framesOf settings script).length := by
    rw [← hframes, List.length_reverse]
  simp only [Totals.captured, totals, capturedOf, hread, hstreams, hemitted, hevictions]

theorem Undisturbed.delivered_le (h : e.Undisturbed s script) :
    e.totals.packetsDelivered ≤ e.totals.framesRead ∧
      e.totals.chunksDelivered ≤ e.totals.chunksEmitted := by
  refine ⟨h.filters.packets.forwarded_le.trans ?_, h.filters.chunks.forwarded_le.trans ?_⟩
  · have hsent := h.framesSent.arrived_prefix.length_le
    rwa [List.length_reverse] at hsent
  · obtain ⟨lost, hsent, -⟩ := h.chunksSent.sent
    have hcount := h.chunks
    rw [← hsent, List.length_append, List.length_append] at hcount
    show e.chunks.arrived.length ≤ e.chunksEmitted
    omega

/-- Take any session with valid settings and predicates that cannot end it, whose caller takes some
of the outputs and none of the others, and neither cancels nor waits long enough for idle streams.
At no time has it delivered more than it captured. From everywhere it can go on to its end. Once it
is over, it has captured as much as a session without predicates has whose caller takes everything,
on the same machine or on another one, if the clocks of both never stand still. -/
theorem captured_downstream (hvalid : s.settings.fault? = none) (htolerates : s.Tolerates)
    (script : Script) {actions : List Action} (hrun : (start s script).run? actions = some e)
    (hcalm : (start s script).isCalm actions = true) {machine : Machine}
    (hmachine : s.machine = machine ∨ StrictMono machine.clock ∧ StrictMono s.machine.clock) :
    (e.totals.packetsDelivered ≤ e.totals.framesRead ∧
      e.totals.chunksDelivered ≤ e.totals.chunksEmitted) ∧
    (∃ e', e.Leads e' ∧ e'.isOver = true) ∧
    (∃ plain, (start (.plain s.settings machine) script).Leads plain ∧ plain.isOver = true) ∧
    (e.isOver = true → ∀ {plainActions : List Action} {plain : Engine Unit Unit},
      (start (.plain s.settings machine) script).run? plainActions = some plain →
      (start (.plain s.settings machine) script).isCalm plainActions = true →
      plain.isOver = true → e.totals.captured = plain.totals.captured) := by
  have hcapacity := queueCapacity_pos hvalid
  have hburst := dispatchBurst_pos hvalid
  have hendures := htolerates.endures script
  have h := (undisturbed_start s script).run hendures hrun hcalm
  have hplain := undisturbed_start (.plain s.settings machine) script
  have hnever := (Session.tolerates_plain s.settings machine).endures script
  refine ⟨h.delivered_le, h.comes_to_end hendures hcapacity hburst,
    hplain.comes_to_end hnever hcapacity hburst,
    fun hover plainActions plain hrun₀ hcalm₀ hover₀ => ?_⟩
  have hends := hplain.run hnever hrun₀ hcalm₀
  -- both have captured what the script gives in sequence
  calc e.totals.captured
      = capturedOf s.machine s.settings script := h.captured_of_isOver hover
    _ = capturedOf machine s.settings script := capturedOf_eq hmachine ..
    _ = plain.totals.captured := (hends.captured_of_isOver hover₀).symm

/-- A predicate that fails at the first of two frames, and content that nobody takes: both records
are captured all the same, each with a stream of its own. -/
theorem captured_downstream_of_failure :
    let r : Record := ⟨none, linkRawIP,
      [0x45, 0, 0, 42, 0, 0, 0, 0, 64, 6, 0, 0, 10, 0, 0, 1, 10, 0, 0, 2,
        0x10, 0, 0, 80, 0, 0, 0, 1, 0, 0, 0, 0, 0x50, 0x11, 0, 0, 0, 0, 0, 0, 104, 105], 42, 0⟩
    let s : Session Unit Unit := {
      settings := { queueCapacity := 1, onPredicateFailure := .keepCapturing }
      packetPredicate := some ⟨(), fun _ _ => .error "broken"⟩
      chunkPredicate := none
      taken := fun output => output = .packets }
    let script : Script := ⟨[.record r, .record r], none⟩
    ∃ e plain, (start s script).run? [.read, .capture, .read, .read, .capture, .capture, .capture,
        .capture, .capture, .capture, .dispatch, .dispatch, .dispatch, .capture, .capture, .capture,
        .capture, .dispatch, .dispatch, .dispatch, .dispatch] = some e ∧
      (start (.plain s.settings .steady) script).run? [.read, .capture, .read, .read, .capture,
        .capture, .capture, .capture, .capture, .receive .packets, .receive .chunks, .capture,
        .capture, .capture, .capture, .capture, .receive .packets, .receive .chunks] = some plain ∧
      e.totals.captured = plain.totals.captured ∧
      e.totals.packetsDelivered = 0 ∧ plain.totals.packetsDelivered = 2 := by
  intro r s script
  generalize hactions : ([.read, .capture, .read, .read, .capture, .capture, .capture, .capture,
    .capture, .capture, .dispatch, .dispatch, .dispatch, .capture, .capture, .capture, .capture,
    .dispatch, .dispatch, .dispatch, .dispatch] : List Action) = actions
  generalize hplainActions : ([.read, .capture, .read, .read, .capture, .capture, .capture,
    .capture, .capture, .receive .packets, .receive .chunks, .capture, .capture, .capture, .capture,
    .capture, .receive .packets, .receive .chunks] : List Action) = plainActions
  have hcalm : (start s script).isCalm actions = true ∧
      (start (.plain s.settings .steady) script).isCalm plainActions = true := by
    subst hactions hplainActions
    decide +kernel
  have hends : ((start s script).run? actions).map
        (fun e => (e.isOver, e.totals.packetsDelivered)) = some (true, 0) ∧
      ((start (.plain s.settings .steady) script).run? plainActions).map
        (fun e => (e.isOver, e.totals.packetsDelivered)) = some (true, 2) := by
    subst hactions hplainActions
    decide +kernel
  obtain ⟨e, hrun, he⟩ := Option.map_eq_some_iff.1 hends.1
  obtain ⟨plain, hplainRun, hplain⟩ := Option.map_eq_some_iff.1 hends.2
  simp only [Prod.mk.injEq] at he hplain
  have hsame := (captured_downstream (by decide +kernel) (.inl rfl) script hrun hcalm.1
    (.inl rfl)).2.2.2 he.1 hplainRun hcalm.2 hplain.1
  exact ⟨e, plain, hrun, hplainRun, hsame, he.2, hplain.2⟩

end Engine

end Pipeline

end Trawl
