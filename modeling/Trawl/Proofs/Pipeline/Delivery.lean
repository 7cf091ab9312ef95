import Trawl.Proofs.Pipeline.Course
import Trawl.Proofs.Reassembly.Idle

/-!
# Delivery without predicates

Where no predicate is set, what the capture sends reaches the caller through one queue for each
output. Frames and content sent so far, and those that the capture still has to send, are all that
was captured, in order (`Engine.Delivers`).
-/

namespace Trawl.Pipeline

namespace Queue

variable {α : Type}

/-- The items that the receiver has taken, oldest first. -/
def received (q : Queue α) : List α :=
  q.history.take (q.history.length - q.waiting.length)

/-- There is a receiver, and what waits are the last items that were put in. -/
structure InUse (capacity : Nat) (q : Queue α) : Prop where
  capacity_eq : q.capacity = capacity
  hasReceiver : q.hasReceiver = true
  waiting : q.waiting <:+ q.history

theorem inUse_empty (capacity : Nat) : (empty capacity : Queue α).InUse capacity :=
  ⟨rfl, rfl, List.suffix_refl []⟩

variable {capacity : Nat} {q : Queue α}

theorem InUse.put (h : q.InUse capacity) (a : α) : (q.put a).InUse capacity := by
  obtain ⟨gone, hgone⟩ := h.waiting
  exact ⟨h.capacity_eq, h.hasReceiver, gone, by simp [Queue.put, ← hgone]⟩

theorem InUse.drop (h : q.InUse capacity) {a : α} {more : List α} (hw : q.waiting = a :: more) :
    InUse capacity { q with waiting := more } :=
  ⟨h.capacity_eq, h.hasReceiver, (List.suffix_cons a more).trans (hw ▸ h.waiting)⟩

theorem InUse.send? (h : q.InUse capacity) {q' : Queue α} {a : α} (hs : q.send? a = some q') :
    q' = q.put a := by
  rcases Queue.send?_cases hs with ⟨hgone, -⟩ | ⟨-, hput⟩
  · rw [h.hasReceiver] at hgone
    cases hgone
  · exact hput

/-- The first item finds room. -/
theorem InUse.offer_first (h : q.InUse 1) (hq : q.history = []) (a : α) :
    (q.offer a).InUse 1 ∧ (q.offer a).history = [a] := by
  have hw : q.waiting = [] := List.suffix_nil.1 (hq ▸ h.waiting)
  have ho : q.offer a = q.put a := by
    simp [Queue.offer, Queue.hasRoom, h.hasReceiver, h.capacity_eq, hw]
  rw [ho]
  exact ⟨h.put a, by simp [Queue.put, hq]⟩

theorem InUse.received_append (h : q.InUse capacity) : q.received ++ q.waiting = q.history := by
  obtain ⟨gone, hgone⟩ := h.waiting
  simp [received, ← hgone]

theorem InUse.received_eq (h : q.InUse capacity) (hw : q.waiting = []) :
    q.received = q.history := by
  have := h.received_append
  rwa [hw, List.append_nil] at this

theorem InUse.received_prefix (h : q.InUse capacity) : q.received <+: q.history :=
  ⟨q.waiting, h.received_append⟩

end Queue

namespace Lane

variable {σ α : Type}

/-- The items that the caller has taken. -/
def received (l : Lane σ α) : List α :=
  l.exit.received

/-- A lane of a single queue, from which the caller takes. -/
def InUse (capacity : Nat) (l : Lane σ α) : Prop :=
  ∃ q, l = .direct q ∧ q.InUse capacity

variable {capacity : Nat} {l l' : Lane σ α}

theorem InUse.exit (h : l.InUse capacity) : l.exit.InUse capacity := by
  obtain ⟨q, rfl, hq⟩ := h
  exact hq

theorem InUse.forwarded (h : l.InUse capacity) : l.forwarded = l.delivered.length := by
  obtain ⟨q, rfl, hq⟩ := h
  rfl

theorem InUse.send? (h : l.InUse capacity) {a : α} (hs : l.send? a = some l') :
    l'.InUse capacity ∧ l'.delivered = l.delivered ++ [a] ∧
      l'.exit.waiting = l.exit.waiting ++ [a] := by
  obtain ⟨q, rfl, hq⟩ := h
  obtain ⟨q', hq', rfl⟩ := Option.map_eq_some_iff.1 hs
  obtain rfl := hq.send? hq'
  exact ⟨⟨_, rfl, hq.put a⟩, rfl, rfl⟩

theorem InUse.isSome_send? (h : l.InUse capacity) (hroom : l.exit.waiting.length < capacity)
    (a : α) : (l.send? a).isSome = true := by
  obtain ⟨q, rfl, hq⟩ := h
  have hroom : q.hasRoom = true := by
    simpa [Queue.hasRoom, hq.capacity_eq, Lane.exit] using hroom
  simp [Lane.send?, entrance, Queue.send?, hq.hasReceiver, hroom]

theorem InUse.receive? (h : l.InUse capacity) (hs : l.receive? = some l') :
    l'.InUse capacity ∧ l'.delivered = l.delivered ∧
      ∃ a, l.exit.waiting = a :: l'.exit.waiting := by
  obtain ⟨q, rfl, hq⟩ := h
  obtain ⟨⟨a, q'⟩, hq', rfl⟩ := Option.map_eq_some_iff.1 hs
  simp only [Lane.exit, Queue.receive?] at hq'
  split at hq'
  · simp at hq'
  · rename_i b more hw
    simp only [Option.some.injEq, Prod.mk.injEq] at hq'
    obtain ⟨rfl, rfl⟩ := hq'
    exact ⟨⟨_, rfl, hq.drop hw⟩, rfl, b, hw⟩

theorem InUse.isSome_receive? (h : l.InUse capacity) (hw : l.exit.waiting ≠ []) :
    l.receive?.isSome = true := by
  obtain ⟨q, rfl, hq⟩ := h
  simp only [Lane.receive?, Lane.exit, Queue.receive?] at hw ⊢
  split
  · contradiction
  · rfl

theorem InUse.close (h : l.InUse capacity) :
    l.close.InUse capacity ∧ l.close.delivered = l.delivered ∧
      l.close.exit.waiting = l.exit.waiting := by
  obtain ⟨q, rfl, hq⟩ := h
  exact ⟨⟨_, rfl, hq.capacity_eq, hq.hasReceiver, hq.waiting⟩, rfl, rfl⟩

theorem inUse_start (burst capacity : Nat) :
    (start (none : Option (Predicate σ α)) burst capacity true).InUse capacity :=
  ⟨_, rfl, Queue.inUse_empty capacity⟩

end Lane

namespace Engine

variable {σ τ : Type}

/-- Whether an action leaves a session to itself: the caller neither cancels it nor drops an output,
and no stream has been silent for long. -/
def permits (e : Engine σ τ) : Action → Bool
  | .cancel => false
  | .abandon _ => false
  | .sweep cutoff => e.capture.pool.streams.all fun entry => cutoff ≤ entry.2.lastSeen
  | _ => true

/-- Whether a run leaves a session to itself. -/
def isCalm (e : Engine σ τ) : List Action → Bool
  | [] => true
  | a :: more => e.permits a && ((e.step? a).all fun e => e.isCalm more)

/-- What the capture has sent and what it still has to send is all that was captured. -/
structure Delivers (machine : Machine) (settings : Settings) (script : Script) (e : Engine σ τ) :
    Prop extends OnCourse machine settings script e where
  packets : e.packets.InUse settings.queueCapacity
  chunkLane : e.chunks.InUse settings.queueCapacity
  faultQueue : e.faults.InUse 1
  source : e.source.capacity = settings.queueCapacity
  framesSent : e.packets.delivered ++ e.tasks.flatMap Task.frames = e.capture.frames.reverse
  chunksSent : e.chunks.delivered ++ e.tasks.flatMap (Task.chunks settings.classifier)
    = e.capture.chunks settings.classifier
  noFault : e.progress = .capturing → e.faults.history = []
  fault : e.progress ≠ .capturing → e.faults.history = script.fault.toList.map .source
  dispatch : e.dispatch = .stopped
  notCancelled : e.isCancelled = false

variable {machine : Machine} {settings : Settings} {script : Script} {e e' : Engine σ τ}

theorem delivers_start (machine : Machine) (settings : Settings) (script : Script) :
    (start (.plain settings machine) script).Delivers machine settings script where
  toOnCourse := onCourse_start (.plain settings machine) script
  packets := Lane.inUse_start settings.dispatchBurst settings.queueCapacity
  chunkLane := Lane.inUse_start settings.dispatchBurst settings.queueCapacity
  faultQueue := Queue.inUse_empty 1
  source := rfl
  framesSent := rfl
  chunksSent := rfl
  noFault _ := rfl
  fault h := absurd rfl h
  dispatch := rfl
  notCancelled := rfl

theorem Delivers.read (h : e.Delivers machine settings script) (hr : e.read? = some e') :
    e'.Delivers machine settings script := by
  have hcourse := h.toOnCourse.read hr
  cases (readStep_of_read? hr).2 with
  | pause => exact { h with toOnCourse := hcourse }
  | hand => exact { h with toOnCourse := hcourse }
  | drop => exact { h with toOnCourse := hcourse }
  | stop => exact { h with toOnCourse := hcourse }

/-- Between two tasks, all that was captured has been sent. -/
theorem Delivers.sent_between (h : e.Delivers machine settings script) (htasks : e.tasks = []) :
    e.packets.delivered = e.capture.frames.reverse ∧
      e.chunks.delivered = e.capture.chunks settings.classifier := by
  have hframes := h.framesSent
  have hchunks := h.chunksSent
  rw [htasks, List.flatMap_nil, List.append_nil] at hframes hchunks
  exact ⟨hframes, hchunks⟩

/-- Completing what is left, once the source has ended. -/
theorem Delivers.finish (h : e.Delivers machine settings script) (htasks : e.tasks = [])
    {source : Queue (Except SourceFault Record)} {faults : Queue SessionFault}
    {reported : List SessionFault}
    (hcourse : OnCourse machine settings script (finish { e with source, faults, reported }))
    (hsource : source.capacity = e.source.capacity) (hfaults : faults.InUse 1)
    (hhistory : faults.history = script.fault.toList.map .source) :
    Delivers machine settings script (finish { e with source, faults, reported }) where
  toOnCourse := hcourse
  packets := h.packets
  chunkLane := h.chunkLane
  faultQueue := hfaults
  source := hsource.trans h.source
  framesSent := by
    simp only [Engine.finish, afterPool, frames_classify, List.append_nil]
    exact (h.sent_between htasks).1
  chunksSent := by
    simp only [Engine.finish, afterPool, chunks_classify, chunks_afterPool]
    exact congrArg (· ++ _) (h.sent_between htasks).2
  noFault hc := by simp [Engine.finish] at hc
  fault _ := hhistory
  dispatch := h.dispatch
  notCancelled := h.notCancelled

theorem Delivers.capture (h : e.Delivers machine settings script) (hc : e.capture? = some e') :
    e'.Delivers machine settings script := by
  have hcourse := h.toOnCourse.capture hc
  cases captureStep_of_capture? hc with
  | @classify stream more htasks =>
    have hframes := h.framesSent
    have hchunks := h.chunksSent
    rw [htasks] at hframes hchunks
    exact { h with
      toOnCourse := hcourse
      framesSent := by
        rw [← hframes]
        simp [Task.frames]
      chunksSent := by
        rw [← hchunks]
        simp [Task.chunks, h.settings_eq] }
  | @sendChunk chunk more chunks htasks hsend =>
    obtain ⟨huse, hdelivered, -⟩ := h.chunkLane.send? hsend
    have hframes := h.framesSent
    have hchunks := h.chunksSent
    rw [htasks] at hframes hchunks
    exact { h with
      toOnCourse := hcourse
      chunkLane := huse
      framesSent := hframes
      chunksSent := by
        rw [← hchunks, hdelivered]
        simp [Task.chunks] }
  | @sendFrame frame more packets htasks hsend =>
    obtain ⟨huse, hdelivered, -⟩ := h.packets.send? hsend
    have hframes := h.framesSent
    have hchunks := h.chunksSent
    rw [htasks] at hframes hchunks
    exact { h with
      toOnCourse := hcourse
      packets := huse
      framesSent := by
        rw [← hframes, hdelivered]
        simp [Task.frames]
      chunksSent := hchunks }
  | @takeRecord r waiting htasks hprogress hw =>
    obtain ⟨hframes, hchunks⟩ := h.sent_between htasks
    exact { h with
      toOnCourse := hcourse
      framesSent := by
        simp only [takeFrame, List.flatMap_append, frames_classify, hframes]
        exact (List.reverse_cons ..).symm
      chunksSent := by
        simp only [takeFrame, Capture.takeFrame, List.flatMap_append, chunks_classify,
          chunks_afterPool, hchunks]
        exact congrArg (_ ++ ·) (List.append_nil _) }
  | @takeFault fault waiting htasks hprogress hw =>
    obtain ⟨taken, ht⟩ := h.capturing hprogress
    obtain ⟨-, hfault, -⟩ := (h.taken_eq ht).2 fault waiting hw
    obtain ⟨hfaults, hhistory⟩ := h.faultQueue.offer_first (h.noFault hprogress) (.source fault)
    exact h.finish htasks hcourse rfl hfaults (by rw [hhistory, hfault]; rfl)
  | finish htasks hprogress hw hopen =>
    obtain ⟨taken, ht⟩ := h.capturing hprogress
    have hitems := h.ended (h.isOpen.symm.trans hopen)
    exact h.finish htasks hcourse rfl h.faultQueue
      (by rw [h.noFault hprogress, ((h.taken_eq ht).1 hw hitems).1]; rfl)
  | leave htasks hprogress =>
    have hframes := h.framesSent
    have hchunks := h.chunksSent
    rw [htasks] at hframes hchunks
    exact { h with
      toOnCourse := hcourse
      framesSent := hframes
      chunksSent := hchunks
      noFault := fun hc => by simp [Engine.leave] at hc
      fault := fun _ => h.fault (by simp [hprogress]) }
  | stop htasks hprogress hreading =>
    obtain ⟨hp, hpd, -⟩ := h.packets.close
    obtain ⟨hc, hcd, -⟩ := h.chunkLane.close
    have hframes := h.framesSent
    have hchunks := h.chunksSent
    rw [← hpd] at hframes
    rw [← hcd] at hchunks
    exact { h with
      toOnCourse := hcourse
      packets := hp
      chunkLane := hc
      framesSent := hframes
      chunksSent := hchunks
      noFault := fun hc => by simp [Engine.stop] at hc
      fault := fun _ => h.fault (by simp [hprogress]) }

/-- Looking for idle streams where there are none changes nothing. -/
theorem sweep?_calm {cutoff : Nat} (hp : e.permits (.sweep cutoff) = true)
    (hs : e.sweep? cutoff = some e') : e' = e := by
  unfold sweep? at hs
  split at hs
  · rename_i hbetween
    have htasks : e.tasks = [] := by
      simp only [isBetweenRecords, Bool.and_eq_true, List.isEmpty_iff] at hbetween
      exact hbetween.2
    have hflush := Reassembly.Pool.flushOlderThan_of_heard hp
    rw [hflush, Option.some.injEq] at hs
    rw [← hs, afterPool, List.map_nil, ← htasks]
    rfl
  · simp at hs

theorem Delivers.step (h : e.Delivers machine settings script) {a : Action}
    (hp : e.permits a = true) (hs : e.step? a = some e') :
    e'.Delivers machine settings script := by
  cases a with
  | read => exact h.read hs
  | stopReading => simp [step?, h.notCancelled] at hs
  | capture => exact h.capture hs
  | sweep cutoff => exact sweep?_calm hp hs ▸ h
  | stopCapture => simp [step?, stopCapture?, h.notCancelled] at hs
  | dispatch => simp [step?, dispatch?, h.dispatch] at hs
  | stopDispatch => simp [step?, stopDispatch?, h.notCancelled] at hs
  | receive output =>
    cases output with
    | packets =>
      obtain ⟨packets, hr, rfl⟩ := Option.map_eq_some_iff.1 hs
      obtain ⟨huse, hdelivered, -⟩ := h.packets.receive? hr
      have hframes := h.framesSent
      rw [← hdelivered] at hframes
      exact { h with packets := huse, framesSent := hframes }
    | chunks =>
      obtain ⟨chunks, hr, rfl⟩ := Option.map_eq_some_iff.1 hs
      obtain ⟨huse, hdelivered, -⟩ := h.chunkLane.receive? hr
      have hchunks := h.chunksSent
      rw [← hdelivered] at hchunks
      exact { h with chunkLane := huse, chunksSent := hchunks }
  | receiveFault =>
    obtain ⟨⟨fault, faults⟩, hr, rfl⟩ := Option.map_eq_some_iff.1 hs
    simp only [Queue.receive?] at hr
    split at hr
    · simp at hr
    · rename_i first more hw
      simp only [Option.some.injEq, Prod.mk.injEq] at hr
      obtain ⟨rfl, rfl⟩ := hr
      exact { h with faultQueue := h.faultQueue.drop hw }
  | abandon output => simp [permits] at hp
  | cancel => simp [permits] at hp

end Engine

end Trawl.Pipeline
