import Trawl.Proofs.Pipeline.Carrying
import Trawl.Proofs.Pipeline.Delivery
import Trawl.Proofs.Pipeline.Filtering

/-!
# Sessions that nobody disturbs

A session whose predicates cannot end it, which nobody cancels and no look at the clock disturbs,
keeps its course whatever the dispatcher does and whichever outputs the caller takes
(`Engine.Undisturbed.run`).
-/

namespace Trawl

open Capture (chunksOf framesOf streamsOf)

namespace Session

variable {σ τ : Type} {s : Session σ τ}

/-- Whether the predicates of a session cannot end it: it goes on after a failure, or there is none.
-/
def Tolerates (s : Session σ τ) : Prop :=
  s.settings.onPredicateFailure = .keepCapturing ∨
    (∀ p, s.packetPredicate = some p → ∀ items, (p.filter items).failure = none) ∧
      ∀ p, s.chunkPredicate = some p → ∀ items, (p.filter items).failure = none

/-- Whether the predicates of a session cannot end it on a script: it goes on after a failure, or
there is none among the frames and the content that the script gives in sequence. -/
def Endures (s : Session σ τ) (script : Script) : Prop :=
  let frames := framesOf s.settings script
  let chunks :=
    (streamsOf s.machine s.settings.pages frames).flatMap (chunksOf s.settings.classifier)
  s.settings.onPredicateFailure = .keepCapturing ∨
    failure? (filterIfAny s.packetPredicate frames) (filterIfAny s.chunkPredicate chunks) = none

theorem failure?_eq_none {frames : Filtered Frame} {chunks : Filtered Content.Chunk} :
    failure? frames chunks = none ↔ frames.failure = none ∧ chunks.failure = none := by
  simp [failure?]

theorem failure_filterIfAny_eq_none {α ρ : Type} {predicate : Option (Predicate ρ α)}
    (h : ∀ p, predicate = some p → ∀ items, (p.filter items).failure = none) (items : List α) :
    (filterIfAny predicate items).failure = none := by
  cases predicate with
  | none => rfl
  | some p => exact h p rfl items

/-- Why what is meant for an output may get lost after some reports: nobody takes the output, or its
filter has gone away because a predicate failed. -/
def Loses (s : Session σ τ) (reported : List SessionFault) (output : Output) : Prop :=
  s.taken output = false ∨ s.hasPredicate output = true ∧
    ∃ failed, reported.filterMap (SessionFault.ofPredicate? failed) ≠ []

theorem Loses.mono {reported reported' : List SessionFault} {output : Output}
    (h : ∀ failed, reported.filterMap (SessionFault.ofPredicate? failed) ≠ [] →
      reported'.filterMap (SessionFault.ofPredicate? failed) ≠ [])
    (hl : s.Loses reported output) : s.Loses reported' output :=
  hl.imp id fun ⟨hp, failed, hf⟩ => ⟨hp, failed, h failed hf⟩

/-- Of an output that the caller takes, something gets lost only after a failure. -/
theorem Loses.failed {reported : List SessionFault} {output : Output}
    (hl : s.Loses reported output) (htaken : s.taken output = true) :
    ∃ failed, reported.filterMap (SessionFault.ofPredicate? failed) ≠ [] := by
  rcases hl with hdropped | ⟨-, hfailed⟩
  · cases htaken.symm.trans hdropped
  · exact hfailed

theorem Tolerates.endures (h : s.Tolerates) (script : Script) : s.Endures script :=
  h.imp id fun ⟨hp, hq⟩ =>
    failure?_eq_none.2 ⟨failure_filterIfAny_eq_none hp _, failure_filterIfAny_eq_none hq _⟩

end Session

namespace Pipeline

namespace Engine

variable {σ τ : Type} {s : Session σ τ} {script : Script} {e e' : Engine σ τ}

/-- A session that keeps its course, with lanes in which nothing gets stuck and from which nothing
is missing without a reason. -/
structure Undisturbed (s : Session σ τ) (script : Script) (e : Engine σ τ) : Prop
    extends OnCourse s.machine s.settings script e where
  notCancelled : e.isCancelled = false
  filters : e.Filters s.packetPredicate s.chunkPredicate True
  source : e.source.capacity = s.settings.queueCapacity
  packets : e.packets.Fits s.settings.queueCapacity s.settings.dispatchBurst
  chunkLane : e.chunks.Fits s.settings.queueCapacity s.settings.dispatchBurst
  closed : e.progress = .stopped →
    e.packets.entrance.isOpen = false ∧ e.chunks.entrance.isOpen = false
  deserted : e.dispatch = .stopped → e.packets.IsDeserted ∧ e.chunks.IsDeserted
  unfailing : e.dispatch ≠ .stopped → ∀ output, e.failures output = []
  framesSent : e.packets.Carries (s.taken .packets) (s.Loses e.reported .packets)
    (e.tasks.flatMap Task.frames) e.capture.frames.reverse
  chunksSent : e.chunks.Carries (s.taken .chunks) (s.Loses e.reported .chunks)
    (e.tasks.flatMap (Task.chunks s.settings.classifier)) (e.capture.chunks s.settings.classifier)
  reports : (∀ output, e.failures output = []) →
    e.reported = if e.progress = .capturing then [] else script.fault.toList.map .source

theorem Undisturbed.read (h : e.Undisturbed s script) (hr : e.read? = some e') :
    e'.Undisturbed s script := by
  have hcourse := h.toOnCourse.read hr
  have hfilters := h.filters.read hr
  cases (readStep_of_read? hr).2 with
  | pause => exact { h with toOnCourse := hcourse, filters := hfilters }
  | hand => exact { h with toOnCourse := hcourse, filters := hfilters }
  | drop => exact { h with toOnCourse := hcourse, filters := hfilters }
  | stop => exact { h with toOnCourse := hcourse, filters := hfilters }

/-- What waits to be sent to a lane that takes nothing more gets lost for a reason. -/
theorem Undisturbed.loses_packets (h : e.Undisturbed s script)
    (hopen : e.packets.entrance.isOpen = true) (hgone : e.packets.entrance.hasReceiver = false) :
    s.Loses e.reported .packets := by
  refine h.framesSent.reason h.filters.packets hopen (fun hd => by simp [hd]) (fun hd => ?_)
    (fun hne => ⟨_, hne⟩) hgone
  exact (h.filters.ended trivial hd).imp And.left fun hf => hf.elim (⟨_, ·⟩) (⟨_, ·⟩)

theorem Undisturbed.loses_chunks (h : e.Undisturbed s script)
    (hopen : e.chunks.entrance.isOpen = true) (hgone : e.chunks.entrance.hasReceiver = false) :
    s.Loses e.reported .chunks := by
  refine h.chunksSent.reason h.filters.chunks hopen (fun hd => by simp [hd]) (fun hd => ?_)
    (fun hne => ⟨_, hne⟩) hgone
  exact (h.filters.ended trivial hd).imp And.right fun hf => hf.elim (⟨_, ·⟩) (⟨_, ·⟩)

/-- Between two tasks, nothing of what was captured is still to be sent. -/
theorem Undisturbed.sent_between (h : e.Undisturbed s script) (htasks : e.tasks = []) :
    e.packets.Carries (s.taken .packets) (s.Loses e.reported .packets) [] e.capture.frames.reverse ∧
      e.chunks.Carries (s.taken .chunks) (s.Loses e.reported .chunks) []
        (e.capture.chunks s.settings.classifier) := by
  have hframes := h.framesSent
  have hchunks := h.chunksSent
  rw [htasks] at hframes hchunks
  exact ⟨hframes, hchunks⟩

/-- Completing what is left, once the source has ended. -/
theorem Undisturbed.finish (h : e.Undisturbed s script) (htasks : e.tasks = [])
    {source : Queue (Except SourceFault Record)} {faults : Queue SessionFault}
    {reported : List SessionFault}
    (hcourse : OnCourse s.machine s.settings script (finish { e with source, faults, reported }))
    (hfilters : Filters s.packetPredicate s.chunkPredicate True
      (finish { e with source, faults, reported }))
    (hsource : source.capacity = e.source.capacity)
    (hfailures : ∀ output, reported.filterMap (SessionFault.ofPredicate? output)
      = e.failures output)
    (hreported : (∀ output, e.failures output = []) →
      reported = script.fault.toList.map .source) :
    Undisturbed s script (finish { e with source, faults, reported }) where
  toOnCourse := hcourse
  notCancelled := h.notCancelled
  filters := hfilters
  source := hsource.trans h.source
  packets := h.packets
  chunkLane := h.chunkLane
  closed hc := by simp [Engine.finish] at hc
  deserted := h.deserted
  unfailing hd output := (hfailures output).trans (h.unfailing hd output)
  framesSent := by
    simp only [Engine.finish, afterPool, frames_classify]
    exact (h.sent_between htasks).1.mono (.mono fun failed => (hfailures failed).trans_ne)
  chunksSent := by
    simp only [Engine.finish, afterPool, chunks_classify, chunks_afterPool]
    exact ((h.sent_between htasks).2.grow _).mono (.mono fun failed => (hfailures failed).trans_ne)
  reports hnone := hreported fun output => (hfailures output).symm.trans (hnone output)

theorem Undisturbed.capture (h : e.Undisturbed s script) (hc : e.capture? = some e') :
    e'.Undisturbed s script := by
  have hcourse := h.toOnCourse.capture hc
  have hfilters := h.filters.capture hc
  have hframes := h.framesSent
  have hchunks := h.chunksSent
  cases captureStep_of_capture? hc with
  | classify htasks =>
    rw [htasks] at hframes hchunks
    exact { h with
      toOnCourse := hcourse
      filters := hfilters
      framesSent := by simpa [Task.frames] using hframes
      chunksSent := by simpa [Task.chunks, h.settings_eq] using hchunks }
  | sendChunk htasks hsend =>
    obtain ⟨-, hopen⟩ := h.filters.isOpen (.inr (by simp [htasks]))
    have hm : e.chunks.Moves _ := .send hopen hsend
    rw [htasks] at hframes hchunks
    exact { h with
      toOnCourse := hcourse
      filters := hfilters
      chunkLane := hm.fits h.chunkLane
      closed := fun hs => by
        rw [Lane.isOpen_send? hsend]
        exact h.closed hs
      deserted := fun hd => (h.deserted hd).imp id hm.isDeserted
      framesSent := hframes
      chunksSent := hchunks.send? hsend (h.loses_chunks hopen) }
  | sendFrame htasks hsend =>
    obtain ⟨hopen, -⟩ := h.filters.isOpen (.inr (by simp [htasks]))
    have hm : e.packets.Moves _ := .send hopen hsend
    rw [htasks] at hframes hchunks
    exact { h with
      toOnCourse := hcourse
      filters := hfilters
      packets := hm.fits h.packets
      closed := fun hs => by
        rw [Lane.isOpen_send? hsend]
        exact h.closed hs
      deserted := fun hd => (h.deserted hd).imp hm.isDeserted id
      framesSent := hframes.send? hsend (h.loses_packets hopen)
      chunksSent := hchunks }
  | takeRecord htasks hprogress hw =>
    obtain ⟨hframes, hchunks⟩ := h.sent_between htasks
    exact { h with
      toOnCourse := hcourse
      filters := hfilters
      framesSent := by
        simp only [takeFrame, Capture.takeFrame, Capture.afterPool, List.flatMap_append,
          frames_classify, List.reverse_cons]
        exact hframes.grow _
      chunksSent := by
        simp only [takeFrame, Capture.takeFrame, List.flatMap_append, chunks_classify,
          chunks_afterPool, List.flatMap_cons, List.flatMap_nil, Task.chunks, List.append_nil]
        exact hchunks.grow _ }
  | @takeFault fault waiting htasks hprogress hw =>
    obtain ⟨taken, ht⟩ := h.capturing hprogress
    obtain ⟨-, hfault, -⟩ := (h.taken_eq ht).2 fault waiting hw
    refine h.finish htasks hcourse hfilters rfl (fun output => ?_) fun hnone => ?_
    · rw [List.filterMap_append]
      exact List.append_nil _
    · rw [h.reports hnone, if_pos hprogress, hfault]
      rfl
  | finish htasks hprogress hw hopen =>
    obtain ⟨taken, ht⟩ := h.capturing hprogress
    have hitems := h.ended (h.isOpen.symm.trans hopen)
    refine h.finish htasks hcourse hfilters rfl (fun _ => rfl) fun hnone => ?_
    rw [h.reports hnone, if_pos hprogress, ((h.taken_eq ht).1 hw hitems).1]
    rfl
  | leave htasks hprogress =>
    rw [htasks] at hframes hchunks
    exact { h with
      toOnCourse := hcourse
      filters := hfilters
      closed := fun hs => by simp [Engine.leave] at hs
      framesSent := hframes
      chunksSent := hchunks
      reports := fun hnone => (h.reports hnone).trans (by simp [hprogress, Engine.leave]) }
  | stop htasks hprogress hreading =>
    exact { h with
      toOnCourse := hcourse
      filters := hfilters
      packets := Lane.Moves.close.fits h.packets
      chunkLane := Lane.Moves.close.fits h.chunkLane
      closed := fun _ => ⟨e.packets.isOpen_close, e.chunks.isOpen_close⟩
      deserted := fun hd =>
        (h.deserted hd).imp Lane.Moves.close.isDeserted Lane.Moves.close.isDeserted
      framesSent := hframes.close
      chunksSent := hchunks.close
      reports := fun hnone => (h.reports hnone).trans (by simp [hprogress, Engine.stop]) }

/-- A predicate that does not fail for what the script gives has not failed. -/
theorem Undisturbed.failures_eq_nil (h : e.Undisturbed s script)
    (hfilters : e'.Filters s.packetPredicate s.chunkPredicate True)
    (hpackets : e'.packets.arrived = e.packets.arrived)
    (hchunks : e'.chunks.arrived = e.chunks.arrived) :
    let frames := framesOf s.settings script
    let chunks :=
      (streamsOf s.machine s.settings.pages frames).flatMap (chunksOf s.settings.classifier)
    ((filterIfAny s.packetPredicate frames).failure = none → e'.failures .packets = []) ∧
      ((filterIfAny s.chunkPredicate chunks).failure = none → e'.failures .chunks = []) := by
  intro frames chunks
  refine ⟨fun hnone => ?_, fun hnone => ?_⟩
  · refine hfilters.packets.reported_eq_nil (failure_filterIfAny_mono ?_ hnone)
    rw [hpackets]
    exact h.framesSent.arrived_prefix.trans h.captured_prefix.1
  · refine hfilters.chunks.reported_eq_nil (failure_filterIfAny_mono ?_ hnone)
    rw [hchunks]
    exact h.chunksSent.arrived_prefix.trans h.content_prefix

/-- A failure that is reported cancels nothing where the session goes on after it. -/
theorem Undisturbed.notCancelled_fails (h : e.Undisturbed s script) (hendures : s.Endures script)
    {output : Output} {message : String}
    (hfilters : e'.Filters s.packetPredicate s.chunkPredicate True)
    (hpackets : e'.packets.arrived = e.packets.arrived)
    (hchunks : e'.chunks.arrived = e.chunks.arrived)
    (hreported : e'.reported = (e.report (.predicate output message)).reported) :
    (e.isCancelled || e.settings.onPredicateFailure = FailurePolicy.stopCapture) = false := by
  rw [h.notCancelled, h.settings_eq, Bool.false_or]
  rcases hendures with hkeep | hnone
  · rw [hkeep]
    rfl
  · -- the predicate does not fail, but the filter has just reported a failure of it
    have hfailures : e'.failures output ≠ [] := by
      have hsame : e'.failures output = (e.report (.predicate output message)).failures output :=
        congrArg (List.filterMap _) hreported
      rw [hsame, failures_report, if_pos rfl]
      simp
    obtain ⟨hpacketsNil, hchunksNil⟩ := h.failures_eq_nil hfilters hpackets hchunks
    obtain ⟨hp, hq⟩ := Session.failure?_eq_none.1 hnone
    cases output with
    | packets => exact absurd (hpacketsNil hp) hfailures
    | chunks => exact absurd (hchunksNil hq) hfailures

theorem Undisturbed.dispatchStep (h : e.Undisturbed s script) (hendures : s.Endures script)
    (hfilters : e'.Filters s.packetPredicate s.chunkPredicate True) (hs : e.DispatchStep e') :
    e'.Undisturbed s script := by
  cases hs with
  | goesOn hd hp hc hdeserted =>
    exact { h with
      filters := hfilters
      packets := hp.fits h.packets
      chunkLane := hc.fits h.chunkLane
      closed := fun hs => (h.closed hs).imp hp.isOpen.trans hc.isOpen.trans
      deserted := hdeserted
      unfailing := fun _ => h.unfailing hd
      framesSent := h.framesSent.kept hp
      chunksSent := h.chunksSent.kept hc }
  | @fails packets chunks output message hd hp hc hdeserted =>
    have hfailures (other : Output) := failures_report e other output message
    have hmore (other : Output) (hne : e.failures other ≠ []) :
        (e.report (.predicate output message)).failures other ≠ [] := by
      rw [hfailures]
      simp [hne]
    exact { h with
      notCancelled := h.notCancelled_fails hendures hfilters hp.arrived hc.arrived rfl
      filters := hfilters
      packets := hp.fits h.packets
      chunkLane := hc.fits h.chunkLane
      closed := fun hs => (h.closed hs).imp hp.isOpen.trans hc.isOpen.trans
      deserted := fun _ => hdeserted
      unfailing := fun hgoing => absurd rfl hgoing
      framesSent := (h.framesSent.kept hp).mono (.mono hmore)
      chunksSent := (h.chunksSent.kept hc).mono (.mono hmore)
      reports := fun hnone => by
        have hone := (hfailures output).symm.trans (hnone output)
        simp at hone }

theorem Undisturbed.step (h : e.Undisturbed s script) (hendures : s.Endures script) {a : Action}
    (hp : e.permits a = true) (hs : e.step? a = some e') : e'.Undisturbed s script := by
  have hstop : a ≠ .stopDispatch := by
    rintro rfl
    simp [step?, stopDispatch?, h.notCancelled] at hs
  have hfilters := h.filters.step (fun _ => hstop) hs
  cases a with
  | read => exact h.read hs
  | stopReading => simp [step?, h.notCancelled] at hs
  | capture => exact h.capture hs
  | sweep cutoff => exact sweep?_calm hp hs ▸ h
  | stopCapture => simp [step?, stopCapture?, h.notCancelled] at hs
  | dispatch => exact h.dispatchStep hendures hfilters (dispatchStep_of_dispatch? hs)
  | stopDispatch => exact absurd rfl hstop
  | receive output =>
    cases output with
    | packets =>
      obtain ⟨packets, hr, rfl⟩ := Option.map_eq_some_iff.1 hs
      exact { h with
        filters := hfilters
        packets := (Lane.Moves.receive hr).fits h.packets
        closed := fun hs => (h.closed hs).imp (Lane.isOpen_receive? hr).trans id
        deserted := fun hd => (h.deserted hd).imp (Lane.Moves.receive hr).isDeserted id
        framesSent := h.framesSent.receive? hr }
    | chunks =>
      obtain ⟨chunks, hr, rfl⟩ := Option.map_eq_some_iff.1 hs
      exact { h with
        filters := hfilters
        chunkLane := (Lane.Moves.receive hr).fits h.chunkLane
        closed := fun hs => (h.closed hs).imp id (Lane.isOpen_receive? hr).trans
        deserted := fun hd => (h.deserted hd).imp id (Lane.Moves.receive hr).isDeserted
        chunksSent := h.chunksSent.receive? hr }
  | receiveFault =>
    obtain ⟨taken, -, rfl⟩ := Option.map_eq_some_iff.1 hs
    exact { h with filters := hfilters }
  | abandon output => simp [permits] at hp
  | cancel => simp [permits] at hp

theorem Undisturbed.run (hendures : s.Endures script) : ∀ {actions : List Action} {e : Engine σ τ},
    e.Undisturbed s script → e.run? actions = some e' → e.isCalm actions = true →
      e'.Undisturbed s script
  | [], e, h, hrun, _ => by
    obtain rfl : e = e' := Option.some.inj hrun
    exact h
  | a :: actions, e, h, hrun, hcalm => by
    rw [run?_cons] at hrun
    obtain ⟨between, hs, hrun⟩ := Option.bind_eq_some_iff.1 hrun
    simp only [isCalm, hs, Option.all_some, Bool.and_eq_true] at hcalm
    exact Undisturbed.run hendures (h.step hendures hcalm.1 hs) hrun hcalm.2

/-! ### The start -/

/-- Without predicates there is no dispatcher, and there are no filters. -/
theorem direct_of_stopped (s : Session σ τ) (script : Script)
    (h : (start s script).dispatch = .stopped) :
    (∃ q, (start s script).packets = .direct q) ∧ ∃ q, (start s script).chunks = .direct q := by
  have hnone : s.packetPredicate = none ∧ s.chunkPredicate = none := by
    simp only [start] at h
    split at h
    · cases h
    · rename_i hnone
      simpa using hnone
  simp only [start, hnone.1, hnone.2, Lane.start]
  refine ⟨?_, ?_⟩
  · split
    · exact ⟨_, rfl⟩
    · exact ⟨_, rfl⟩
  · split
    · exact ⟨_, rfl⟩
    · exact ⟨_, rfl⟩

theorem filters_start (s : Session σ τ) (script : Script) :
    (start s script).Filters s.packetPredicate s.chunkPredicate True where
  packets := Lane.follows_start ..
  chunks := Lane.follows_start ..
  ended _ hstopped := by
    obtain ⟨⟨q, hp⟩, q', hc⟩ := direct_of_stopped s script hstopped
    rw [hp, hc]
    exact .inl ⟨rfl, rfl⟩
  closed hclosed := by
    have hp := Lane.isOpen_of_isNew (Lane.isNew_start s.packetPredicate s.settings.dispatchBurst
      s.settings.queueCapacity (s.taken .packets))
    have hc := Lane.isOpen_of_isNew (Lane.isNew_start s.chunkPredicate s.settings.dispatchBurst
      s.settings.queueCapacity (s.taken .chunks))
    rcases hclosed with hclosed | hclosed
    · cases hp.symm.trans hclosed
    · cases hc.symm.trans hclosed

theorem undisturbed_start (s : Session σ τ) (script : Script) :
    (start s script).Undisturbed s script where
  toOnCourse := onCourse_start s script
  notCancelled := rfl
  filters := filters_start s script
  source := rfl
  packets := Lane.fits_start ..
  chunkLane := Lane.fits_start ..
  closed h := by simp [start] at h
  deserted h := by
    obtain ⟨⟨q, hp⟩, q', hc⟩ := direct_of_stopped s script h
    rw [hp, hc]
    exact ⟨trivial, trivial⟩
  unfailing _ _ := rfl
  framesSent := Lane.carries_start ..
  chunksSent := Lane.carries_start ..
  reports _ := rfl

end Engine

end Pipeline

end Trawl
