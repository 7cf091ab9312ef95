import Trawl.Flow
import Trawl.Reassembly.Stream

/-!
# Streams under one page budget

All flows under reassembly. Two ceilings bound the pages that wait: over the ceiling of one stream,
its gaps are given up; over the ceiling of all, the stream that has been silent longest is completed
at once. Where the order matters in which the streams are gone through, it is that of the table that
holds them.
-/

namespace Trawl.Reassembly

/-- The fields of a TCP header that reassembly needs. -/
structure Segment where
  source : Endpoint
  target : Endpoint
  sequence : UInt32
  syn : Bool
  fin : Bool
  rst : Bool
  deriving DecidableEq, Repr

/-- The flow that a segment belongs to. -/
def Segment.flow (s : Segment) : Flow :=
  .between s.source s.target

/-- The sequence number of the first payload byte. A SYN takes up one of its own. -/
def Segment.start (s : Segment) : UInt32 :=
  if s.syn then s.sequence + 1 else s.sequence

/-- Why a stream was completed. -/
inductive Ending where
  | fin
  | reset
  | idle
  /-- Forced out by the ceiling of all streams. -/
  | evicted
  | endOfCapture
  deriving DecidableEq, Repr

/-- The name of an ending in records. -/
def Ending.name : Ending → String
  | .fin => "fin"
  | .reset => "reset"
  | .idle => "idle"
  | .evicted => "evicted"
  | .endOfCapture => "end_of_capture"

/-- The bytes of a completed stream. -/
structure Completed where
  flow : Flow
  data : Bytes
  ending : Ending
  deriving DecidableEq, Repr

/-- The ceilings on waiting pages. -/
structure Limits where
  perStream : Nat
  total : Nat
  deriving DecidableEq, Repr

/-- The streams under reassembly. -/
structure Pool where
  limits : Limits
  /-- Live streams, each with its flow, in the order of opening. -/
  streams : List (Flow × Stream)
  /-- The order in which the table of streams lists their flows, those that are not named last. -/
  order : List Flow
  /-- Pages that wait in all live streams. -/
  pages : Nat
  /-- How many streams have been forced out so far. -/
  evictions : Nat
  deriving DecidableEq, Repr

namespace Pool

/-- A pool without streams. -/
def empty (limits : Limits) : Pool where
  limits := limits
  streams := []
  order := []
  pages := 0
  evictions := 0

/-- A pool whose table lists its flows in another order. -/
def listed (order : List Flow) (p : Pool) : Pool :=
  { p with order }

/-- The live streams as the table lists them: as they were opened, if there is no other order. -/
def table (p : Pool) : List (Flow × Stream) :=
  match p.order with
  | [] => p.streams
  | order => p.streams.mergeSort fun a b => order.idxOf a.1 ≤ order.idxOf b.1

theorem table_perm (p : Pool) : p.table.Perm p.streams := by
  unfold table
  split
  · exact .refl _
  · exact List.mergeSort_perm ..

/-- The live stream of a flow. -/
def find? (p : Pool) (flow : Flow) : Option Stream :=
  (p.streams.find? (·.1 = flow)).map (·.2)

/-- Live streams with `stream` in the place of the flow's former one, or behind all others. -/
def put (flow : Flow) (stream : Stream) : List (Flow × Stream) → List (Flow × Stream)
  | [] => [(flow, stream)]
  | entry :: others =>
    if entry.1 = flow then (flow, stream) :: others else entry :: put flow stream others

/-- Live streams without that of a flow. -/
def without (flow : Flow) (streams : List (Flow × Stream)) : List (Flow × Stream) :=
  streams.filter (·.1 ≠ flow)

/-- Ends the stream of a flow. One that never had any byte leaves nothing behind. -/
def complete (p : Pool) (flow : Flow) (ending : Ending) : Pool × Option Completed :=
  match p.find? flow with
  | none => (p, none)
  | some stream =>
    let p := { p with
      streams := without flow p.streams
      pages := p.pages - stream.waitingPages }
    let data := stream.finish
    (p, if data.isEmpty then none else some ⟨flow, data, ending⟩)

/-- Ends the streams of several flows, one after the other. -/
def completeAll (ending : Ending) : List Flow → Pool → Pool × List Completed
  | [], p => (p, [])
  | flow :: flows, p =>
    let first := p.complete flow ending
    let rest := completeAll ending flows first.1
    (rest.1, first.2.toList ++ rest.2)

/-- The one of two streams that has been silent longer, the first where they are equal. -/
def olderOf (a b : Flow × Stream) : Flow × Stream :=
  if b.2.lastSeen < a.2.lastSeen then b else a

/-- The flow with waiting pages that has been silent longest. -/
def victim? (p : Pool) : Option Flow :=
  match p.table.filter (0 < ·.2.waitingPages) with
  | [] => none
  | entry :: others => some (others.foldl olderOf entry).1

theorem foldl_olderOf_mem (others : List (Flow × Stream)) (entry : Flow × Stream) :
    others.foldl olderOf entry ∈ entry :: others := by
  induction others generalizing entry with
  | nil => simp
  | cons b more ih =>
    have h := ih (olderOf entry b)
    simp only [List.foldl_cons, List.mem_cons] at h ⊢
    rcases h with h | h
    · rw [h]
      unfold olderOf
      split <;> simp
    · exact .inr (.inr h)

theorem victim?_mem {p : Pool} {flow : Flow} (h : p.victim? = some flow) :
    ∃ stream, (flow, stream) ∈ p.streams ∧ 0 < stream.waitingPages := by
  unfold victim? at h
  split at h
  · simp at h
  · rename_i entry others hf
    simp only [Option.some.injEq] at h
    have hm := foldl_olderOf_mem others entry
    rw [← hf, List.mem_filter] at hm
    exact ⟨_, by rw [← h]; exact p.table_perm.mem_iff.1 hm.1, by simpa using hm.2⟩

theorem length_without_lt {flow : Flow} {stream : Stream} {streams : List (Flow × Stream)}
    (h : (flow, stream) ∈ streams) : (without flow streams).length < streams.length := by
  unfold without
  rw [← List.countP_eq_length_filter]
  refine Nat.lt_of_le_of_ne List.countP_le_length fun he => ?_
  have := List.countP_eq_length.mp he _ h
  simp at this

theorem length_streams_complete {p : Pool} {flow : Flow} {stream : Stream} {ending : Ending}
    (h : (flow, stream) ∈ p.streams) :
    (p.complete flow ending).1.streams.length < p.streams.length := by
  have hf : ∃ s, p.find? flow = some s := by
    unfold find?
    cases he : p.streams.find? (·.1 = flow) with
    | some entry => exact ⟨entry.2, rfl⟩
    | none =>
      rw [List.find?_eq_none] at he
      exact absurd (he _ h) (by simp)
  obtain ⟨s, hs⟩ := hf
  simp only [complete, hs]
  exact length_without_lt h

/-- Forces out streams until the ceiling of all is kept. -/
def enforceTotal (p : Pool) : Pool × List Completed :=
  if p.limits.total < p.pages then
    match _h : p.victim? with
    | none => (p, [])
    | some flow =>
      let first := { p with evictions := p.evictions + 1 }.complete flow .evicted
      let rest := enforceTotal first.1
      (rest.1, first.2.toList ++ rest.2)
  else (p, [])
termination_by p.streams.length
decreasing_by
  obtain ⟨stream, hm, _⟩ := victim?_mem _h
  exact length_streams_complete hm

/-- The stream that a segment goes to: the live one of its flow, or a new one. A segment that has no
payload and is no SYN opens none. -/
def streamFor? (p : Pool) (segment : Segment) (payload : Bytes) (now : Nat) : Option Stream :=
  match p.find? segment.flow with
  | some stream => some stream
  | none =>
    if payload.isEmpty && !segment.syn then none else some (.start segment.start now)

/-- Keeps `after` as the stream of a flow, which was `before`. -/
def keep (p : Pool) (flow : Flow) (before after : Stream) : Pool :=
  { p with
    streams := put flow after p.streams
    pages := p.pages - before.waitingPages + after.waitingPages }

/-- Why a stream is over after a segment, if it is. -/
def ending? (segment : Segment) (stream : Stream) : Option Ending :=
  if segment.rst then some .reset
  else if stream.isFinished then some .fin
  else none

/-- Ends the stream of a flow, if there is a reason to. -/
def conclude (p : Pool) (flow : Flow) : Option Ending → Pool × Option Completed
  | none => (p, none)
  | some ending => p.complete flow ending

/-- Takes in a segment with its payload. The result lists the streams that this completes, those
forced out by the ceiling of all streams last. -/
def assemble (p : Pool) (segment : Segment) (payload : Bytes) (now : Nat) :
    Pool × List Completed :=
  match p.streamFor? segment payload now with
  | none => (p, [])
  | some before =>
    let after :=
      (before.insert segment.start payload segment.fin now).relieve p.limits.perStream
    let concluded := (p.keep segment.flow before after).conclude segment.flow (ending? segment after)
    let enforced := concluded.1.enforceTotal
    (enforced.1, concluded.2.toList ++ enforced.2)

/-- Completes every stream that has been silent since before `cutoff`, the most silent first. -/
def flushOlderThan (p : Pool) (cutoff : Nat) : Pool × List Completed :=
  let idle := p.table.filter (·.2.lastSeen < cutoff)
  let oldestFirst := idle.mergeSort fun a b => a.2.lastSeen ≤ b.2.lastSeen
  completeAll .idle (oldestFirst.map (·.1)) p

/-- Completes every stream, in the order of the table. -/
def flushAll (p : Pool) : Pool × List Completed :=
  completeAll .endOfCapture (p.table.map (·.1)) p

end Pool

end Trawl.Reassembly
