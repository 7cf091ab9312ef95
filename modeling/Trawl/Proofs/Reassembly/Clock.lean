import Mathlib.Order.Monotone.Basic
import Trawl.Proofs.Reassembly.Calls
import Trawl.Proofs.Reassembly.Waiting

/-!
# The clock of a pool

Only the order of the times matters at which segments arrive. Under a clock that runs differently
but never stands still, a pool completes the same streams and stays the same but for the times
themselves (`Pool.retime_assemble`).
-/

namespace Trawl.Reassembly

namespace Stream

/-- A stream whose times are read off another clock. -/
def retime (f : Nat → Nat) (s : Stream) : Stream :=
  { s with lastSeen := f s.lastSeen }

variable (f : Nat → Nat)

theorem retime_append (s : Stream) (position : UInt32) (segment : Bytes) :
    (s.retime f).append position segment = (s.append position segment).retime f := by
  unfold append retime
  dsimp only
  split <;> rfl

theorem retime_releaseFrom : ∀ (held : List (UInt32 × Bytes)) (s : Stream),
    (s.retime f).releaseFrom held = (s.releaseFrom held).retime f
  | [], _ => rfl
  | (position, segment) :: later, s => by
    simp only [releaseFrom]
    show (if isAhead position s.next then _ else _) = _
    split
    · rfl
    · rw [← retime_releaseFrom later, ← retime_append]
      rfl

theorem retime_release (s : Stream) : (s.retime f).release = s.release.retime f :=
  retime_releaseFrom f s.waiting s

theorem retime_hold (s : Stream) (position : UInt32) (segment : Bytes) :
    (s.retime f).hold position segment = (s.hold position segment).retime f := by
  have hat : (s.retime f).waitingAt? position = s.waitingAt? position := rfl
  simp only [hold, hat]
  rcases s.waitingAt? position with _ | held
  · rfl
  · simp only
    split <;> rfl

theorem retime_insert (s : Stream) (sequence : UInt32) (payload : Bytes) (fin : Bool) (now : Nat) :
    (s.retime f).insert sequence payload fin (f now)
      = (s.insert sequence payload fin now).retime f := by
  obtain ⟨t, ht, hi⟩ := s.insert_eq sequence payload fin now
  obtain ⟨t', ht', hi'⟩ := (s.retime f).insert_eq sequence payload fin (f now)
  have heq : t' = t.retime f := by
    rw [ht, ht']
    rfl
  rw [hi, hi', heq]
  show (if payload.isEmpty then _ else if isAhead (sequence - s.origin) t.next then _ else _) = _
  split
  · rfl
  split
  · exact retime_hold f t _ payload
  · show (Stream.append (t.retime f) (sequence - s.origin) payload).release = _
    rw [retime_append, retime_release]

theorem retime_skipGap? (s : Stream) :
    (s.retime f).skipGap? = s.skipGap?.map (retime f) := by
  have hw : (s.retime f).waiting = s.waiting := rfl
  simp only [skipGap?, hw]
  rcases s.waiting with _ | ⟨⟨first, segment⟩, later⟩
  · rfl
  · exact congrArg some
      (retime_release f { s with next := first, waiting := (first, segment) :: later })

theorem retime_relieve (limit : Nat) (s : Stream) :
    (s.retime f).relieve limit = (s.relieve limit).retime f := by
  fun_induction relieve limit s with
  | case1 s hover t ht ih =>
    rw [← ih]
    exact relieve_of_some hover (by rw [retime_skipGap?, ht, Option.map_some])
  | case2 s hover hnone =>
    exact relieve_of_none (by rw [retime_skipGap?, hnone, Option.map_none])
  | case3 s hover => exact relieve_of_le (Nat.not_lt.1 hover)

theorem retime_finish (s : Stream) : (s.retime f).finish = s.finish := by
  fun_induction finish s with
  | case1 s t ht ih =>
    rw [← ih]
    exact finish_of_some (by rw [retime_skipGap?, ht, Option.map_some])
  | case2 s hnone => exact finish_of_none (by rw [retime_skipGap?, hnone, Option.map_none])

end Stream

namespace Pool

/-- A pool whose times are read off another clock. -/
def retime (f : Nat → Nat) (p : Pool) : Pool :=
  { p with streams := p.streams.map fun e => (e.1, e.2.retime f) }

variable (f : Nat → Nat)

theorem retime_empty (limits : Limits) : (empty limits).retime f = empty limits := rfl

theorem retime_listed (order : List Flow) (p : Pool) :
    (p.retime f).listed order = (p.listed order).retime f := rfl

theorem retime_table (p : Pool) :
    (p.retime f).table = p.table.map fun e => (e.1, e.2.retime f) := by
  unfold table
  dsimp only [retime]
  split
  · rfl
  · exact (List.map_mergeSort (f := fun e : Flow × Stream => (e.1, e.2.retime f))
      fun _ _ _ _ => rfl).symm

theorem retime_find? (p : Pool) (flow : Flow) :
    (p.retime f).find? flow = (p.find? flow).map (Stream.retime f) := by
  simp only [find?, retime, List.find?_map, Option.map_map]
  rfl

theorem retime_put (flow : Flow) (stream : Stream) : ∀ streams : List (Flow × Stream),
    put flow (stream.retime f) (streams.map fun e => (e.1, e.2.retime f))
      = (put flow stream streams).map fun e => (e.1, e.2.retime f)
  | [] => rfl
  | e :: others => by
    simp only [put, List.map_cons]
    split
    · rfl
    · rw [retime_put flow stream others, List.map_cons]

theorem retime_without (flow : Flow) (streams : List (Flow × Stream)) :
    without flow (streams.map fun e => (e.1, e.2.retime f))
      = (without flow streams).map fun e => (e.1, e.2.retime f) := by
  simp only [without, List.filter_map]
  rfl

theorem retime_complete (p : Pool) (flow : Flow) (ending : Ending) :
    (p.retime f).complete flow ending
      = ((p.complete flow ending).1.retime f, (p.complete flow ending).2) := by
  simp only [complete, retime_find?]
  rcases p.find? flow with _ | stream
  · rfl
  · simp only [Option.map_some, Stream.retime_finish]
    rw [retime, retime]
    simp only [retime_without]
    rfl

theorem retime_conclude (p : Pool) (flow : Flow) : ∀ ending : Option Ending,
    (p.retime f).conclude flow ending
      = ((p.conclude flow ending).1.retime f, (p.conclude flow ending).2)
  | none => rfl
  | some ending => retime_complete f p flow ending

theorem retime_completeAll (ending : Ending) : ∀ (flows : List Flow) (p : Pool),
    completeAll ending flows (p.retime f)
      = ((completeAll ending flows p).1.retime f, (completeAll ending flows p).2)
  | [], _ => rfl
  | flow :: flows, p => by
    simp only [completeAll, retime_complete, retime_completeAll ending flows]

theorem retime_flushAll (p : Pool) :
    (p.retime f).flushAll = (p.flushAll.1.retime f, p.flushAll.2) := by
  have hflows : (p.retime f).table.map (·.1) = p.table.map (·.1) := by
    simp [retime_table, Function.comp_def]
  rw [flushAll, hflows, retime_completeAll]
  rfl

theorem retime_keep (p : Pool) (flow : Flow) (before after : Stream) :
    (p.retime f).keep flow (before.retime f) (after.retime f)
      = (p.keep flow before after).retime f := by
  simp only [keep, retime, retime_put]
  rfl

theorem retime_streamFor? (p : Pool) (segment : Segment) (payload : Bytes) (now : Nat) :
    (p.retime f).streamFor? segment payload (f now)
      = (p.streamFor? segment payload now).map (Stream.retime f) := by
  simp only [streamFor?, retime_find?]
  rcases p.find? segment.flow with _ | stream
  · simp only [Option.map_none]
    split <;> rfl
  · rfl

variable {f}

theorem retime_olderOf (hf : StrictMono f) (a b : Flow × Stream) :
    olderOf (a.1, a.2.retime f) (b.1, b.2.retime f)
      = ((olderOf a b).1, (olderOf a b).2.retime f) := by
  unfold olderOf
  have hlt : (b.2.retime f).lastSeen < (a.2.retime f).lastSeen ↔ b.2.lastSeen < a.2.lastSeen :=
    hf.lt_iff_lt
  simp only [hlt]
  split <;> rfl

theorem retime_foldl_olderOf (hf : StrictMono f) : ∀ (others : List (Flow × Stream))
    (a : Flow × Stream),
    (others.map fun e => (e.1, e.2.retime f)).foldl olderOf (a.1, a.2.retime f)
      = ((others.foldl olderOf a).1, (others.foldl olderOf a).2.retime f)
  | [], _ => rfl
  | b :: others, a => by
    rw [List.map_cons, List.foldl_cons, List.foldl_cons, retime_olderOf hf a b]
    exact retime_foldl_olderOf hf others (olderOf a b)

theorem retime_victim? (hf : StrictMono f) (p : Pool) : (p.retime f).victim? = p.victim? := by
  have hfilter : (p.retime f).table.filter (0 < ·.2.waitingPages)
      = (p.table.filter (0 < ·.2.waitingPages)).map fun e => (e.1, e.2.retime f) := by
    rw [retime_table, List.filter_map]
    rfl
  simp only [victim?, hfilter]
  generalize List.filter _ p.table = holders
  rcases holders with _ | ⟨e, others⟩
  · rfl
  · exact congrArg (fun e => some e.1) (retime_foldl_olderOf hf others e)

theorem retime_enforceTotal (hf : StrictMono f) (p : Pool) :
    (p.retime f).enforceTotal = (p.enforceTotal.1.retime f, p.enforceTotal.2) := by
  fun_induction enforceTotal p with
  | case1 p hover hv => exact enforceTotal_of_none (by rw [retime_victim? hf, hv])
  | case2 p hover flow hv first rest ih =>
    have hv' : (p.retime f).victim? = some flow := by rw [retime_victim? hf, hv]
    have hfirst : { p.retime f with evictions := p.evictions + 1 }.complete flow .evicted
        = (first.1.retime f, first.2) :=
      retime_complete f { p with evictions := p.evictions + 1 } flow .evicted
    rw [enforceTotal_of_some (p := p.retime f) hover hv']
    show _ = (rest.1.retime f, first.2.toList ++ rest.2)
    rw [show (p.retime f).evictions = p.evictions from rfl, hfirst]
    simp only [ih, rest]
  | case3 p hover => exact enforceTotal_of_le (Nat.not_lt.1 hover)

/-- Only the order of times matters to a pool. -/
theorem retime_assemble (hf : StrictMono f) (p : Pool) (segment : Segment) (payload : Bytes)
    (now : Nat) :
    (p.retime f).assemble segment payload (f now)
      = ((p.assemble segment payload now).1.retime f, (p.assemble segment payload now).2) := by
  simp only [assemble, retime_streamFor?]
  rcases p.streamFor? segment payload now with _ | before
  · rfl
  · have hlimits : (p.retime f).limits = p.limits := rfl
    simp only [Option.map_some, hlimits, Stream.retime_insert, Stream.retime_relieve, retime_keep]
    generalize Stream.relieve _ _ = after
    have hending : ending? segment (after.retime f) = ending? segment after := rfl
    simp only [hending, retime_conclude, retime_enforceTotal hf]

end Pool

end Trawl.Reassembly
