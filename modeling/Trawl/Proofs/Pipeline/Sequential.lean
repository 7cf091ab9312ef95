import Trawl.Capture
import Trawl.Proofs.Reassembly.Listing

/-!
# Capturing in sequence

The frames of a script, and the streams that one pool completes which is fed their segments one
after the other and flushed at the end. A capture that takes in the same frames without a pause
comes to that (`Capture.completed_finish`). Of the machine that it runs on, only the order counts in
which the clock shows the times of the frames (`Capture.streamsOf_showing`), and if the clock never
stands still, only the streams that are left at the end come in another order on another machine
(`Capture.streamsOf_perm`).
-/

namespace Trawl

/-- The records that a script gives. -/
def Script.records (s : Script) : List Record :=
  s.readings.filterMap fun
    | .record r => some r
    | .timedOut _ => none

namespace Machine

/-- A machine with another clock, which is read off its own. -/
def showing (machine : Machine) (clock : Nat → Nat) : Machine :=
  { machine with clock := clock ∘ machine.clock }

variable (machine : Machine) (clock : Nat → Nat)

@[simp] theorem clock_showing (t : Nat) :
    (machine.showing clock).clock t = clock (machine.clock t) := rfl

@[simp] theorem order_showing : (machine.showing clock).order = machine.order := rfl

end Machine

namespace Capture

open Reassembly (Completed Limits Pool)

/-- The frames that a script gives: its records, cut to the snapshot length and decoded. -/
def framesOf (settings : Settings) (script : Script) : List Frame :=
  script.records.map fun r => .decode (r.clamp settings.snapshotLength)

/-- Feeds the segments of frames to a pool, the first frame when `n` nanoseconds have gone by. -/
def feed (machine : Machine) : (n : Nat) → Pool → List Frame → Pool × List Completed
  | _, p, [] => (p, [])
  | n, p, frame :: more =>
    match frame.layers.segment with
    | none => feed machine (n + 1) p more
    | some segment =>
      let listed := p.listed (machine.order n)
      let taken := listed.assemble segment frame.payload (machine.clock n)
      let rest := feed machine (n + 1) taken.1 more
      (rest.1, taken.2 ++ rest.2)

/-- The streams that frames complete in a pool of their own, and then those that are left. -/
def streamsOf (machine : Machine) (limits : Limits) (frames : List Frame) : List Completed :=
  let fed := feed machine 1 (.empty limits) frames
  fed.2 ++ fed.1.flushAll.2

/-- How many streams frames force out of a pool of their own. -/
def evictionsOf (machine : Machine) (limits : Limits) (frames : List Frame) : Nat :=
  (feed machine 1 (.empty limits) frames).1.evictions

section Clock

variable {clock : Nat → Nat} (hclock : StrictMono clock) (machine : Machine)

include hclock

theorem feed_retime : ∀ (frames : List Frame) (n : Nat) (p : Pool),
    feed (machine.showing clock) n (p.retime clock) frames
      = ((feed machine n p frames).1.retime clock, (feed machine n p frames).2)
  | [], _, _ => rfl
  | frame :: more, n, p => by
    simp only [feed]
    rcases frame.layers.segment with _ | segment
    · exact feed_retime more (n + 1) p
    · simp only [Machine.clock_showing, Machine.order_showing, Pool.retime_listed,
        Pool.retime_assemble hclock, feed_retime more]

/-- Any clock that shows times in the same order completes the same streams. -/
theorem streamsOf_showing (limits : Limits) (frames : List Frame) :
    streamsOf (machine.showing clock) limits frames = streamsOf machine limits frames := by
  have h := feed_retime hclock machine frames 1 (.empty limits)
  rw [Pool.retime_empty] at h
  simp only [streamsOf, h, Pool.retime_flushAll]

theorem evictionsOf_showing (limits : Limits) (frames : List Frame) :
    evictionsOf (machine.showing clock) limits frames = evictionsOf machine limits frames := by
  have h := feed_retime hclock machine frames 1 (.empty limits)
  rw [Pool.retime_empty] at h
  simp only [evictionsOf, h]
  rfl

end Clock

section Listing

theorem bounded_feed (machine : Machine) : ∀ (frames : List Frame) (n : Nat) {p : Pool}, p.Bounded →
    (feed machine n p frames).1.Bounded
  | [], _, _, h => h
  | frame :: more, n, p, h => by
    simp only [feed]
    rcases frame.layers.segment with _ | segment
    · exact bounded_feed machine more (n + 1) h
    · have hlisted : (p.listed (machine.order n)).Bounded := { h with }
      exact bounded_feed machine more (n + 1) (hlisted.assemble segment _ _)

variable {machine other : Machine} (hclock : StrictMono machine.clock)
  (hother : other.clock = machine.clock)

include hclock hother

/-- By a clock that never stands still, every table gives the same streams, whatever its order. -/
theorem feed_listed : ∀ (frames : List Frame) (n : Nat) {p : Pool} (order : List Flow),
    p.HeardApart (machine.clock n) → ∃ last, feed other n (p.listed order) frames =
      ((feed machine n p frames).1.listed last, (feed machine n p frames).2)
  | [], _, _, order, _ => ⟨order, rfl⟩
  | frame :: more, n, p, order, h => by
    have hnext : machine.clock n + 1 ≤ machine.clock (n + 1) := hclock (Nat.lt_succ_self n)
    simp only [feed]
    rcases frame.layers.segment with _ | segment
    · exact feed_listed more (n + 1) order (h.mono (Nat.le_of_succ_le hnext))
    · have hlisted := h.listed (machine.order n)
      have htaken := hlisted.assemble_listed (other.order n) segment frame.payload
      obtain ⟨last, hrest⟩ := feed_listed more (n + 1) (other.order n)
        ((hlisted.assemble segment frame.payload).mono hnext)
      rw [Pool.listed_listed] at htaken
      exact ⟨last, by simp only [Pool.listed_listed, hother, htaken, hrest]⟩

theorem streamsOf_listed (limits : Limits) (frames : List Frame) :
    (∃ completed left left', streamsOf machine limits frames = completed ++ left ∧
        streamsOf other limits frames = completed ++ left' ∧ left.Perm left') ∧
      evictionsOf machine limits frames = evictionsOf other limits frames := by
  obtain ⟨last, hfed⟩ := feed_listed hclock hother frames 1 [] (Pool.heardApart_empty limits)
  have hlisted : (Pool.empty limits).listed [] = .empty limits := rfl
  rw [hlisted] at hfed
  have hbounded := bounded_feed machine frames 1 (Pool.bounded_after limits [])
  refine ⟨⟨_, _, _, rfl, ?_, (hbounded.toAccounted.flushAll_listed last).symm⟩, ?_⟩
  · rw [streamsOf, hfed]
    rfl
  · rw [evictionsOf, evictionsOf, hfed]
    rfl

end Listing

/-- Take two machines with clocks that never stand still. On both, frames complete the same streams,
in the same order but for those that are left at the end, and force out as many. -/
theorem streamsOf_perm {machine other : Machine} (hclock : StrictMono machine.clock)
    (hother : StrictMono other.clock) (limits : Limits) (frames : List Frame) :
    (∃ completed left left', streamsOf machine limits frames = completed ++ left ∧
        streamsOf other limits frames = completed ++ left' ∧ left.Perm left') ∧
      evictionsOf machine limits frames = evictionsOf other limits frames := by
  -- Both clocks are read off one that shows every nanosecond.
  have hread (m : Machine) : m = Machine.showing ⟨id, m.order⟩ m.clock := rfl
  rw [hread machine, hread other, streamsOf_showing hclock, streamsOf_showing hother,
    evictionsOf_showing hclock, evictionsOf_showing hother]
  have hsteady : StrictMono (Machine.clock ⟨id, machine.order⟩) := strictMono_id
  have hsame : Machine.clock ⟨id, other.order⟩ = Machine.clock ⟨id, machine.order⟩ := rfl
  exact streamsOf_listed hsteady hsame limits frames

/-- A capture that takes in frames without a pause feeds them to its pool. -/
theorem foldl_takeFrame : ∀ (frames : List Frame) (c : Capture),
    frames.foldl takeFrame c =
      { c with
        pool := (feed c.machine (c.elapsed + 1) c.pool frames).1
        elapsed := c.elapsed + frames.length
        frames := frames.reverse ++ c.frames
        completed := (feed c.machine (c.elapsed + 1) c.pool frames).2.reverse ++ c.completed }
  | [], c => by simp [feed]
  | frame :: more, c => by
    rw [List.foldl_cons, foldl_takeFrame more]
    simp only [takeFrame, afterPool, assembled, feed]
    rcases frame.layers.segment with _ | segment
    · simp [Nat.add_comm, Nat.add_left_comm]
    · simp [Nat.add_comm, Nat.add_left_comm]

variable (machine : Machine) (settings : Settings) (frames : List Frame)

theorem frames_finish :
    (frames.foldl takeFrame (start machine settings)).finish.frames = frames.reverse := by
  rw [foldl_takeFrame]
  exact List.append_nil _

theorem frames_takeRecord (c : Capture) (r : Record) : (c.takeRecord settings r).frames =
    .decode (r.clamp settings.snapshotLength) :: c.frames :=
  rfl

theorem frames_sweep (c : Capture) : ∀ cutoff : Option Nat, (c.sweep cutoff).frames = c.frames
  | none => rfl
  | some _ => rfl

/-- No frame comes from a pause, whichever streams are idle then. -/
theorem frames_takePause (c : Capture) (pause : Nat) :
    (c.takePause settings pause).frames = c.frames :=
  frames_sweep ..

theorem frames_foldl_take : ∀ (readings : List Reading) (c : Capture),
    (readings.foldl (take settings) c).frames =
      (framesOf settings ⟨readings, none⟩).reverse ++ c.frames
  | [], _ => rfl
  | .record r :: more, c => by
    have hframes : framesOf settings ⟨.record r :: more, none⟩ =
      .decode (r.clamp settings.snapshotLength) :: framesOf settings ⟨more, none⟩ := rfl
    rw [List.foldl_cons, frames_foldl_take more, take, frames_takeRecord, hframes,
      List.reverse_cons, List.append_assoc, List.singleton_append]
  | .timedOut pause :: more, c => by
    rw [List.foldl_cons, frames_foldl_take more, take, frames_takePause]
    rfl

theorem frames_of_finish (c : Capture) : c.finish.frames = c.frames :=
  rfl

/-- Every record of a script becomes a frame, whatever else the script gives. -/
theorem frames_run (script : Script) : (run machine settings script).frames.reverse =
    framesOf settings script := by
  rw [run, frames_of_finish, frames_foldl_take, start, List.append_nil, List.reverse_reverse]
  rfl

theorem completed_finish :
    (frames.foldl takeFrame (start machine settings)).finish.completed.reverse
      = streamsOf machine settings.pages frames := by
  rw [foldl_takeFrame]
  simp only [finish, afterPool, start, List.append_nil, List.reverse_append, List.reverse_reverse]
  rfl

/-- More frames, and flushing, only add to the completed streams. -/
theorem completed_prefix (more : List Frame) :
    (frames.foldl takeFrame (start machine settings)).completed.reverse
      <+: ((frames ++ more).foldl takeFrame (start machine settings)).finish.completed.reverse := by
  rw [List.foldl_append, foldl_takeFrame more]
  simp only [finish, afterPool, List.reverse_append, List.reverse_reverse, List.append_assoc]
  exact List.prefix_append ..

theorem evictions_finish :
    (frames.foldl takeFrame (start machine settings)).finish.pool.evictions
      = evictionsOf machine settings.pages frames := by
  rw [foldl_takeFrame]
  exact Pool.evictions_completeAll _ _ _

end Capture

end Trawl
