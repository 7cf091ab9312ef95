import Trawl.Proofs.Pipeline.Lanes
import Trawl.Proofs.Pipeline.Steps

/-!
# Outputs with predicates

Whatever the reader, the capture, the dispatcher and the caller do, in whatever order, an output with
a predicate gets what the predicate accepts of the items that arrived, in order and up to its first
failure: at any time a beginning of it, and in the end all of it where nothing was broken off
(`Engine.run_filters`).
-/

namespace Trawl

/-- The message of a failed predicate of an output. -/
def SessionFault.ofPredicate? (output : Output) : SessionFault → Option String
  | .predicate failed message => if failed = output then some message else none
  | _ => none

namespace Pipeline

namespace Engine

variable {σ τ : Type}

/-- The failures of the predicate of an output that were reported, oldest first. -/
def failures (e : Engine σ τ) (output : Output) : List String :=
  e.reported.filterMap (SessionFault.ofPredicate? output)

/-- Nothing has come to the filters yet, and the dispatcher waits for its first round. -/
structure IsNew (e : Engine σ τ) : Prop where
  packets : e.packets.IsNew
  chunks : e.chunks.IsNew
  dispatch : e.dispatch = .waiting
  failures : ∀ output, e.failures output = []

/-- The filters follow their predicates. `calm` says that the dispatcher never noticed that the
session was cancelled. -/
structure Filters (p : Option (Predicate σ Frame)) (q : Option (Predicate τ Content.Chunk))
    (calm : Prop) (e : Engine σ τ) : Prop where
  packets : e.packets.Follows p calm (e.failures .packets) (e.dispatch = .serving .packets)
    (e.dispatch = .stopped)
  chunks : e.chunks.Follows q calm (e.failures .chunks) (e.dispatch = .serving .chunks)
    (e.dispatch = .stopped)
  ended : calm → e.dispatch = .stopped → e.packets.filters = false ∧ e.chunks.filters = false ∨
    e.failures .packets ≠ [] ∨ e.failures .chunks ≠ []
  closed : e.packets.entrance.isOpen = false ∨ e.chunks.entrance.isOpen = false →
    e.progress = .stopped ∧ e.tasks = []

variable {p : Option (Predicate σ Frame)} {q : Option (Predicate τ Content.Chunk)} {calm : Prop}
  {e e' : Engine σ τ}

theorem filters_of_isNew (h : e.IsNew) :
    e.Filters e.packets.predicate? e.chunks.predicate? calm where
  packets := by
    rw [h.failures]
    exact Lane.follows_of_isNew h.packets
  chunks := by
    rw [h.failures]
    exact Lane.follows_of_isNew h.chunks
  ended _ hstopped := by
    rw [h.dispatch] at hstopped
    cases hstopped
  closed hclosed := by
    rw [Lane.isOpen_of_isNew h.packets, Lane.isOpen_of_isNew h.chunks] at hclosed
    simp at hclosed

/-! ### Steps of the capture and of the caller -/

/-- A step in which the dispatcher does not act. -/
structure Around (e e' : Engine σ τ) : Prop where
  packets : e.packets.Moves e'.packets
  chunks : e.chunks.Moves e'.chunks
  dispatch : e'.dispatch = e.dispatch
  failures : ∀ output, e'.failures output = e.failures output

theorem Filters.around (h : e.Filters p q calm) (ha : e.Around e')
    (hclosed : e'.packets.entrance.isOpen = false ∨ e'.chunks.entrance.isOpen = false →
      e'.progress = .stopped ∧ e'.tasks = []) : e'.Filters p q calm := by
  obtain ⟨hpackets, hpacketFilter⟩ := h.packets.moves ha.packets
  obtain ⟨hchunks, hchunkFilter⟩ := h.chunks.moves ha.chunks
  refine ⟨?_, ?_, ?_, hclosed⟩
  · rw [ha.dispatch, ha.failures]
    exact hpackets
  · rw [ha.dispatch, ha.failures]
    exact hchunks
  · rw [ha.dispatch, ha.failures, ha.failures, hpacketFilter, hchunkFilter]
    exact h.ended

/-- As long as there are tasks, both lanes are open. -/
theorem Filters.isOpen (h : e.Filters p q calm) (hgoing : e.progress ≠ .stopped ∨ e.tasks ≠ []) :
    e.packets.entrance.isOpen = true ∧ e.chunks.entrance.isOpen = true := by
  rw [← Bool.not_eq_false, ← Bool.not_eq_false, ← not_or]
  intro hclosed
  obtain ⟨hstopped, htasks⟩ := h.closed hclosed
  rcases hgoing with hprogress | hne
  · exact hprogress hstopped
  · exact hne htasks

/-- The capture goes on without touching the lanes. -/
theorem Filters.still (h : e.Filters p q calm) (hgoing : e.progress ≠ .stopped ∨ e.tasks ≠ [])
    (hpackets : e'.packets = e.packets) (hchunks : e'.chunks = e.chunks)
    (hdispatch : e'.dispatch = e.dispatch)
    (hfailures : ∀ output, e'.failures output = e.failures output) : e'.Filters p q calm := by
  obtain ⟨hpacketsOpen, hchunksOpen⟩ := h.isOpen hgoing
  refine h.around ⟨hpackets ▸ .rest, hchunks ▸ .rest, hdispatch, hfailures⟩ fun hclosed => ?_
  simp [hpackets, hchunks, hpacketsOpen, hchunksOpen] at hclosed

theorem Filters.capture (h : e.Filters p q calm) (hc : e.capture? = some e') :
    e'.Filters p q calm := by
  cases captureStep_of_capture? hc with
  | @classify stream more htasks =>
    exact h.still (.inr (by simp [htasks])) rfl rfl rfl fun _ => rfl
  | sendChunk htasks hsend =>
    obtain ⟨hpackets, hchunks⟩ := h.isOpen (.inr (by simp [htasks]))
    refine h.around ⟨.rest, .send hchunks hsend, rfl, fun _ => rfl⟩ fun hclosed => ?_
    simp [hpackets, Lane.isOpen_send? hsend, hchunks] at hclosed
  | sendFrame htasks hsend =>
    obtain ⟨hpackets, hchunks⟩ := h.isOpen (.inr (by simp [htasks]))
    refine h.around ⟨.send hpackets hsend, .rest, rfl, fun _ => rfl⟩ fun hclosed => ?_
    simp [hchunks, Lane.isOpen_send? hsend, hpackets] at hclosed
  | takeRecord htasks hprogress hw =>
    exact h.still (.inl (by simp [hprogress])) rfl rfl rfl fun _ => rfl
  | @takeFault fault waiting htasks hprogress hw =>
    refine h.still (.inl (by simp [hprogress])) rfl rfl rfl fun output => ?_
    show (e.reported ++ [SessionFault.source fault]).filterMap _ = e.reported.filterMap _
    rw [List.filterMap_append]
    exact List.append_nil _
  | finish htasks hprogress hw hopen =>
    exact h.still (.inl (by simp [hprogress])) rfl rfl rfl fun _ => rfl
  | leave htasks hprogress =>
    exact h.still (.inl (by simp [hprogress])) rfl rfl rfl fun _ => rfl
  | stop htasks hprogress hreading =>
    exact h.around ⟨.close, .close, rfl, fun _ => rfl⟩ fun _ => ⟨rfl, htasks⟩

theorem Filters.stopCapture (h : e.Filters p q calm) (hs : e.stopCapture? = some e') :
    e'.Filters p q calm := by
  unfold stopCapture? at hs
  split at hs
  · cases hs
  split at hs
  · rename_i htasks
    rw [← Option.some.inj hs]
    exact h.still (.inr (by simp [htasks])) rfl rfl rfl fun _ => rfl
  · rename_i htasks
    rw [← Option.some.inj hs]
    exact h.still (.inr (by simp [htasks])) rfl rfl rfl fun _ => rfl
  · rename_i htasks
    rw [← Option.some.inj hs]
    exact h.still (.inr (by simp [htasks])) rfl rfl rfl fun _ => rfl
  · rename_i hprogress
    rw [← Option.some.inj hs]
    exact h.still (.inl (by simp [hprogress])) rfl rfl rfl fun _ => rfl
  · cases hs

theorem Filters.sweep (h : e.Filters p q calm) {cutoff : Nat} (hs : e.sweep? cutoff = some e') :
    e'.Filters p q calm := by
  unfold sweep? at hs
  split at hs
  · rename_i hbetween
    simp only [isBetweenRecords, Bool.and_eq_true, decide_eq_true_eq] at hbetween
    rw [← Option.some.inj hs]
    exact h.still (.inl (by simp [hbetween.1])) rfl rfl rfl fun _ => rfl
  · cases hs

theorem Filters.read (h : e.Filters p q calm) (hr : e.read? = some e') : e'.Filters p q calm := by
  cases (readStep_of_read? hr).2 with
  | pause => exact h.around ⟨.rest, .rest, rfl, fun _ => rfl⟩ h.closed
  | hand => exact h.around ⟨.rest, .rest, rfl, fun _ => rfl⟩ h.closed
  | drop => exact h.around ⟨.rest, .rest, rfl, fun _ => rfl⟩ h.closed
  | stop => exact h.around ⟨.rest, .rest, rfl, fun _ => rfl⟩ h.closed

/-! ### Steps of the dispatcher -/

/-- No filter is in the middle of a turn, and the dispatcher is about to go on. -/
structure Rests (p : Option (Predicate σ Frame)) (q : Option (Predicate τ Content.Chunk))
    (calm : Prop) (packetFailures chunkFailures : List String) (e : Engine σ τ) : Prop where
  packets : e.packets.Follows p calm packetFailures False False
  chunks : e.chunks.Follows q calm chunkFailures False False
  closed : e.packets.entrance.isOpen = false ∨ e.chunks.entrance.isOpen = false →
    e.progress = .stopped ∧ e.tasks = []

theorem Rests.stopDispatch (h : e.Rests p q calm (e.failures .packets) (e.failures .chunks))
    (hover : calm → e.packets.filters = false ∧ e.chunks.filters = false ∨
      e.failures .packets ≠ [] ∨ e.failures .chunks ≠ []) :
    e.stopDispatch.Filters p q calm := by
  obtain ⟨hpackets, hpacketFilter⟩ := h.packets.stopFilter
  obtain ⟨hchunks, hchunkFilter⟩ := h.chunks.stopFilter
  refine ⟨hpackets.mono (fun hf => hf.elim) fun _ => rfl,
    hchunks.mono (fun hf => hf.elim) fun _ => rfl, fun hcalm _ => ?_, fun hclosed => ?_⟩
  · show e.packets.stopFilter.filters = false ∧ e.chunks.stopFilter.filters = false ∨ _
    rw [hpacketFilter, hchunkFilter]
    exact hover hcalm
  · simp only [Engine.stopDispatch, Lane.isOpen_stopFilter] at hclosed
    exact h.closed hclosed

/-- After a turn, the dispatcher goes on with the other filter, or with the next round, or not at
all where both filters are done. -/
theorem Rests.nextTurn (h : e.Rests p q calm (e.failures .packets) (e.failures .chunks))
    (output : Output) : (e.nextTurn output).Filters p q calm := by
  cases output with
  | packets =>
    refine ⟨h.packets.mono (fun hf => hf.elim) fun hf => hf.elim,
      h.chunks.mono (fun hf => hf.elim) fun hf => hf.elim, fun _ hstopped => ?_, h.closed⟩
    cases hstopped
  | chunks =>
    simp only [Engine.nextTurn]
    split
    · refine ⟨h.packets.mono (fun hf => hf.elim) fun hf => hf.elim,
        h.chunks.mono (fun hf => hf.elim) fun hf => hf.elim, fun _ hstopped => ?_, h.closed⟩
      cases hstopped
    · rename_i hfilters
      simp only [Bool.or_eq_true, not_or, Bool.not_eq_true] at hfilters
      exact h.stopDispatch fun _ => .inl hfilters

theorem failures_report (e : Engine σ τ) (output failed : Output) (message : String) :
    (e.report (.predicate failed message)).failures output =
      e.failures output ++ if failed = output then [message] else [] := by
  show (e.reported ++ [SessionFault.predicate failed message]).filterMap _ = _
  rw [List.filterMap_append]
  simp only [List.filterMap_cons, List.filterMap_nil, SessionFault.ofPredicate?]
  split
  · rename_i hn
    split at hn
    · cases hn
    · rename_i hne
      rw [if_neg hne]
      rfl
  · rename_i hs
    split at hs
    · rename_i heq
      rw [if_pos heq, Option.some.inj hs]
      rfl
    · cases hs

/-- A failure of a predicate ends the dispatcher. -/
theorem Rests.predicateFailed {output : Output} {message : String}
    {packetFailures chunkFailures : List String}
    (h : e.Rests p q calm packetFailures chunkFailures)
    (hpackets : packetFailures =
      e.failures .packets ++ if output = .packets then [message] else [])
    (hchunks : chunkFailures = e.failures .chunks ++ if output = .chunks then [message] else []) :
    (e.predicateFailed output message).Filters p q calm := by
  let reporting : Engine σ τ := { e.report (.predicate output message) with
    isCancelled := e.isCancelled || e.settings.onPredicateFailure = FailurePolicy.stopCapture }
  have hfailures (o : Output) : reporting.failures o =
      e.failures o ++ if output = o then [message] else [] := failures_report e o output message
  have hrests : reporting.Rests p q calm (reporting.failures .packets)
      (reporting.failures .chunks) := by
    rw [hfailures, hfailures, ← hpackets, ← hchunks]
    exact ⟨h.packets, h.chunks, h.closed⟩
  refine hrests.stopDispatch fun _ => .inr ?_
  rw [hfailures, hfailures]
  cases output with
  | packets => exact .inl (by simp)
  | chunks => exact .inr (by simp)

/-- Unless it is the turn of a filter, no filter is in the middle of one. -/
theorem Filters.rests (h : e.Filters p q calm) (hgoing : e.dispatch ≠ .stopped)
    (hpackets : e.dispatch = .serving .packets → ∃ queue, e.packets = .direct queue)
    (hchunks : e.dispatch = .serving .chunks → ∃ queue, e.chunks = .direct queue) :
    e.Rests p q calm (e.failures .packets) (e.failures .chunks) :=
  ⟨h.packets.rests hgoing hpackets, h.chunks.rests hgoing hchunks, h.closed⟩

theorem Filters.rests_setPackets (h : e.Filters p q calm) (hd : e.dispatch = .serving .packets)
    {l : Lane σ Frame} {failures : List String} (hl : l.Follows p calm failures False False)
    (hopen : l.entrance.isOpen = e.packets.entrance.isOpen) :
    (setPackets l e).Rests p q calm failures (e.failures .chunks) := by
  refine ⟨hl, ?_, fun hclosed => h.closed (hclosed.imp hopen.symm.trans id)⟩
  exact h.chunks.rests (by simp [hd]) (by simp [hd])

theorem Filters.rests_setChunks (h : e.Filters p q calm) (hd : e.dispatch = .serving .chunks)
    {l : Lane τ Content.Chunk} {failures : List String}
    (hl : l.Follows q calm failures False False)
    (hopen : l.entrance.isOpen = e.chunks.entrance.isOpen) :
    (setChunks l e).Rests p q calm (e.failures .packets) failures := by
  refine ⟨?_, hl, fun hclosed => h.closed (hclosed.imp id hopen.symm.trans)⟩
  exact h.packets.rests (by simp [hd]) (by simp [hd])

theorem Filters.afterTurn_packets (h : e.Filters p q calm) (hd : e.dispatch = .serving .packets)
    (turn : Filter.Turn σ Frame)
    (ht : turn.Served p calm (e.failures .packets) e.packets.entrance.isOpen) :
    (e.afterTurn .packets setPackets turn).Filters p q calm := by
  match turn, ht with
  | .goesOn f, ht =>
    refine ⟨ht.1.mono (fun _ => hd) fun hf => hf.elim, h.chunks, fun _ hstopped => ?_,
      fun hclosed => h.closed (hclosed.imp ht.2.symm.trans id)⟩
    cases hd.symm.trans hstopped
  | .over f, ht => exact (h.rests_setPackets hd ht.1 ht.2).nextTurn .packets
  | .failed message f, ht =>
    exact (h.rests_setPackets hd ht.1 ht.2).predicateFailed rfl (List.append_nil _).symm

theorem Filters.afterTurn_chunks (h : e.Filters p q calm) (hd : e.dispatch = .serving .chunks)
    (turn : Filter.Turn τ Content.Chunk)
    (ht : turn.Served q calm (e.failures .chunks) e.chunks.entrance.isOpen) :
    (e.afterTurn .chunks setChunks turn).Filters p q calm := by
  match turn, ht with
  | .goesOn f, ht =>
    refine ⟨h.packets, ht.1.mono (fun _ => hd) fun hf => hf.elim, fun _ hstopped => ?_,
      fun hclosed => h.closed (hclosed.imp id ht.2.symm.trans)⟩
    cases hd.symm.trans hstopped
  | .over f, ht => exact (h.rests_setChunks hd ht.1 ht.2).nextTurn .chunks
  | .failed message f, ht =>
    exact (h.rests_setChunks hd ht.1 ht.2).predicateFailed (List.append_nil _).symm rfl

theorem Filters.dispatch (h : e.Filters p q calm) (hs : e.dispatch? = some e') :
    e'.Filters p q calm := by
  unfold dispatch? at hs
  split at hs
  · rename_i hd
    have hrests := h.rests (by simp [hd]) (by simp [hd]) (by simp [hd])
    rw [← Option.some.inj hs]
    refine ⟨hrests.packets.mono (fun hf => hf.elim) fun hf => hf.elim,
      hrests.chunks.mono (fun hf => hf.elim) fun hf => hf.elim, fun _ hstopped => ?_, h.closed⟩
    cases hstopped
  · rename_i hd
    have hfollows := h.packets
    have hturn := h.afterTurn_packets hd
    cases hl : e.packets with
    | direct queue =>
      rw [hl] at hs
      rw [← Option.some.inj hs]
      exact (h.rests (by simp [hd]) (fun _ => ⟨queue, hl⟩) (by simp [hd])).nextTurn .packets
    | filtered f =>
      rw [hl] at hs hfollows hturn
      obtain ⟨turn, hstep, rfl⟩ := Option.map_eq_some_iff.1 hs
      exact hturn turn (Filter.served_step? hfollows (by simp [hd]) hstep)
  · rename_i hd
    have hfollows := h.chunks
    have hturn := h.afterTurn_chunks hd
    cases hl : e.chunks with
    | direct queue =>
      rw [hl] at hs
      rw [← Option.some.inj hs]
      exact (h.rests (by simp [hd]) (by simp [hd]) fun _ => ⟨queue, hl⟩).nextTurn .chunks
    | filtered f =>
      rw [hl] at hs hfollows hturn
      obtain ⟨turn, hstep, rfl⟩ := Option.map_eq_some_iff.1 hs
      exact hturn turn (Filter.served_step? hfollows (by simp [hd]) hstep)
  · cases hs

theorem Filters.stopDispatch (h : e.Filters p q calm) (hbroken : ¬ calm)
    (hs : e.stopDispatch? = some e') : e'.Filters p q calm := by
  unfold stopDispatch? at hs
  split at hs
  · cases hs
  split at hs
  · rename_i hd
    rw [← Option.some.inj hs]
    have hrests := h.rests (by simp [hd]) (by simp [hd]) (by simp [hd])
    exact hrests.stopDispatch fun hcalm => absurd hcalm hbroken
  · rename_i f hd hl
    have hfollows := h.packets
    have hturn := h.afterTurn_packets hd
    rw [hl] at hfollows hturn
    obtain ⟨turn, hstep, rfl⟩ := Option.map_eq_some_iff.1 hs
    exact hturn turn (Filter.served_breakOff? hfollows (by simp [hd]) hbroken hstep)
  · rename_i f hd hl
    have hfollows := h.chunks
    have hturn := h.afterTurn_chunks hd
    rw [hl] at hfollows hturn
    obtain ⟨turn, hstep, rfl⟩ := Option.map_eq_some_iff.1 hs
    exact hturn turn (Filter.served_breakOff? hfollows (by simp [hd]) hbroken hstep)
  · cases hs

/-! ### Runs -/

theorem Filters.step (h : e.Filters p q calm) {a : Action} (hcalm : calm → a ≠ .stopDispatch)
    (hs : e.step? a = some e') : e'.Filters p q calm := by
  cases a with
  | read => exact h.read hs
  | stopReading =>
    simp only [step?] at hs
    split at hs
    · rw [← Option.some.inj hs]
      exact h.around ⟨.rest, .rest, rfl, fun _ => rfl⟩ h.closed
    · cases hs
  | capture => exact h.capture hs
  | sweep cutoff => exact h.sweep hs
  | stopCapture => exact h.stopCapture hs
  | dispatch => exact h.dispatch hs
  | stopDispatch => exact h.stopDispatch (fun hc => hcalm hc rfl) hs
  | receive output =>
    cases output with
    | packets =>
      obtain ⟨packets, hr, rfl⟩ := Option.map_eq_some_iff.1 hs
      refine h.around ⟨.receive hr, .rest, rfl, fun _ => rfl⟩ fun hclosed => h.closed ?_
      exact hclosed.imp (Lane.isOpen_receive? hr).symm.trans id
    | chunks =>
      obtain ⟨chunks, hr, rfl⟩ := Option.map_eq_some_iff.1 hs
      refine h.around ⟨.rest, .receive hr, rfl, fun _ => rfl⟩ fun hclosed => h.closed ?_
      exact hclosed.imp id (Lane.isOpen_receive? hr).symm.trans
  | receiveFault =>
    obtain ⟨taken, hr, rfl⟩ := Option.map_eq_some_iff.1 hs
    exact h.around ⟨.rest, .rest, rfl, fun _ => rfl⟩ h.closed
  | abandon output =>
    cases output with
    | packets =>
      rw [← Option.some.inj hs]
      refine h.around ⟨.abandon, .rest, rfl, fun _ => rfl⟩ fun hclosed => h.closed ?_
      exact hclosed.imp (Lane.isOpen_abandon e.packets).symm.trans id
    | chunks =>
      rw [← Option.some.inj hs]
      refine h.around ⟨.rest, .abandon, rfl, fun _ => rfl⟩ fun hclosed => h.closed ?_
      exact hclosed.imp id (Lane.isOpen_abandon e.chunks).symm.trans
  | cancel =>
    rw [← Option.some.inj hs]
    exact h.around ⟨.rest, .rest, rfl, fun _ => rfl⟩ h.closed

theorem Filters.run : ∀ {actions : List Action} {e : Engine σ τ}, e.Filters p q calm →
    (calm → Action.stopDispatch ∉ actions) → e.run? actions = some e' → e'.Filters p q calm
  | [], e, h, _, hrun => by
    obtain rfl : e = e' := Option.some.inj hrun
    exact h
  | a :: actions, e, h, hcalm, hrun => by
    rw [run?_cons] at hrun
    obtain ⟨between, hs, hrun⟩ := Option.bind_eq_some_iff.1 hrun
    refine (h.step (fun hc heq => ?_) hs).run (fun hc hmem => ?_) hrun
    · exact hcalm hc (heq ▸ List.mem_cons_self)
    · exact hcalm hc (List.mem_cons_of_mem a hmem)

theorem isNew_start (s : Session σ τ) (script : Script)
    (h : (s.packetPredicate.isSome || s.chunkPredicate.isSome) = true) :
    (start s script).IsNew where
  packets := Lane.isNew_start ..
  chunks := Lane.isNew_start ..
  dispatch := if_pos h
  failures _ := rfl

/-- Whatever happens in a session, and in whatever order, an output with a predicate gets what the
predicate accepts of the items that arrived, in order and up to its first failure: at any time a
beginning of it. Once the dispatcher has stopped it has got all of that, and the failure, if there is
one, has been reported once, unless the dispatcher noticed that the session was cancelled, or the
predicate of the other output failed, or nobody takes the items. -/
theorem run_filters {e₀ e : Engine σ τ} (hnew : e₀.IsNew) {actions : List Action}
    (hrun : e₀.run? actions = some e) :
    (∀ p, e₀.packets.predicate? = some p → e.packets.Refines p ∧
      (e.dispatch = .stopped → Action.stopDispatch ∉ actions → e.failures .chunks = [] →
        e.packets.exit.hasReceiver = true →
          e.packets.delivered = (p.filter e.packets.arrived).accepted ∧
            e.failures .packets = (p.filter e.packets.arrived).failure.toList)) ∧
    (∀ q, e₀.chunks.predicate? = some q → e.chunks.Refines q ∧
      (e.dispatch = .stopped → Action.stopDispatch ∉ actions → e.failures .packets = [] →
        e.chunks.exit.hasReceiver = true →
          e.chunks.delivered = (q.filter e.chunks.arrived).accepted ∧
            e.failures .chunks = (q.filter e.chunks.arrived).failure.toList)) := by
  have h : e.Filters e₀.packets.predicate? e₀.chunks.predicate? (Action.stopDispatch ∉ actions) :=
    (filters_of_isNew hnew).run id hrun
  refine ⟨fun p hp => ?_, fun q hq => ?_⟩
  · have hfollows := h.packets
    rw [hp] at hfollows
    refine ⟨hfollows.refines, fun hstopped hcalm hother hreceiver => ?_⟩
    refine hfollows.finished hcalm (by simp [hstopped]) ?_ hreceiver
    -- The dispatcher stopped because both filters were done, or at a failure of one of the two.
    rcases h.ended hcalm hstopped with hdone | hfailed | hfailed
    · exact .inl hdone.1
    · exact .inr hfailed
    · exact absurd hother hfailed
  · have hfollows := h.chunks
    rw [hq] at hfollows
    refine ⟨hfollows.refines, fun hstopped hcalm hother hreceiver => ?_⟩
    refine hfollows.finished hcalm (by simp [hstopped]) ?_ hreceiver
    rcases h.ended hcalm hstopped with hdone | hfailed | hfailed
    · exact .inl hdone.2
    · exact absurd hother hfailed
    · exact .inr hfailed

/-- A predicate that keeps the first of three records and fails at the third, in batches of two. The
third record arrives while the first batch is being gathered. -/
theorem run_filters_failing :
    let r (n : UInt8) : Record := ⟨none, linkRawIP, [n], 1, 0⟩
    let s : Session Nat Unit := {
      settings := { queueCapacity := 2, dispatchBurst := 2 }
      packetPredicate := some ⟨0, fun n _ => if n = 2 then .error "broken" else .ok (n = 0, n + 1)⟩
      chunkPredicate := some ⟨(), fun _ _ => .ok (true, ())⟩
      taken := fun _ => true }
    let script : Script := ⟨[.record (r 1), .record (r 2), .record (r 3)], none⟩
    ∃ e, (start s script).run? ([.read, .read, .capture, .capture, .capture, .capture, .read,
        .dispatch, .dispatch, .dispatch, .capture, .capture, .dispatch] ++
        List.replicate 12 .dispatch) = some e ∧
      e.packets.arrived = [.decode (r 1), .decode (r 2), .decode (r 3)] ∧
      e.packets.delivered = [.decode (r 1)] ∧ e.failures .packets = ["broken"] := by
  intro r s script
  generalize hactions : (([.read, .read, .capture, .capture, .capture, .capture, .read, .dispatch,
    .dispatch, .dispatch, .capture, .capture, .dispatch] : List Action) ++
    List.replicate 12 .dispatch) = actions
  have hcalm : Action.stopDispatch ∉ actions := by
    subst hactions
    decide
  have hend : ((start s script).run? actions).map (fun e => (e.dispatch, e.packets.arrived,
      e.failures .chunks, e.packets.exit.hasReceiver)) =
      some (.stopped, [.decode (r 1), .decode (r 2), .decode (r 3)], [], true) := by
    subst hactions
    decide +kernel
  obtain ⟨e, hrun, hvalues⟩ := Option.map_eq_some_iff.1 hend
  simp only [Prod.mk.injEq] at hvalues
  obtain ⟨hstopped, harrived, hother, hreceiver⟩ := hvalues
  obtain ⟨hdelivered, hfailures⟩ := ((run_filters (isNew_start s script rfl) hrun).1 _ rfl).2
    hstopped hcalm hother hreceiver
  rw [harrived] at hdelivered hfailures
  exact ⟨e, hrun, harrived, hdelivered, hfailures⟩

end Engine

end Pipeline

end Trawl
