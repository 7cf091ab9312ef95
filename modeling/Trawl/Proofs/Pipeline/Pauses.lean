import Mathlib.Order.Monotone.Basic
import Trawl.Proofs.Pipeline.Sequential
import Trawl.Proofs.Reassembly.Idle
import Trawl.Session

/-!
# Pauses

A pause of the source takes time, and it may find streams that have been silent for long. Where it
finds none, what is captured is what the frames give in sequence on a machine on which the same time
goes by before each of them (`Capture.captured_run`).
-/

namespace Trawl

/-- The nanosecond at which the `n`th record comes of a source that gives some readings. -/
def moment : List Reading → Nat → Nat
  | _, 0 => 0
  | [], n + 1 => n + 1
  | .record _ :: more, n + 1 => moment more n + 1
  | .timedOut pause :: more, n + 1 => pause + moment more (n + 1)

example (r : Record) : (List.range 4).map (moment [.timedOut 5, .record r, .timedOut 3, .record r])
    = [0, 6, 10, 11] := rfl

theorem moment_lt_succ : ∀ (readings : List Reading) (n : Nat),
    moment readings n < moment readings (n + 1)
  | [], 0 => Nat.zero_lt_one
  | [], n + 1 => Nat.lt_succ_self (n + 1)
  | .record _ :: _, 0 => Nat.succ_pos _
  | .record _ :: more, n + 1 => Nat.succ_lt_succ (moment_lt_succ more n)
  | .timedOut _ :: more, 0 =>
    Nat.lt_of_lt_of_le (Nat.zero_lt_of_lt (moment_lt_succ more 0)) (Nat.le_add_left ..)
  | .timedOut pause :: more, n + 1 => Nat.add_lt_add_left (moment_lt_succ more (n + 1)) pause

theorem strictMono_moment (readings : List Reading) : StrictMono (moment readings) :=
  strictMono_nat_of_lt_succ (moment_lt_succ readings)

/-- A machine on which the pauses of a source go by without being noticed. -/
def Machine.paused (machine : Machine) (readings : List Reading) : Machine where
  clock := machine.clock ∘ moment readings
  order := machine.order ∘ moment readings

theorem Machine.paused_steady (readings : List Reading) :
    steady.paused readings = steady.showing (moment readings) :=
  rfl

theorem Script.untilPause_prefix (script : Script) : script.untilPause <+: script.readings := by
  rw [← List.reverse_suffix]
  unfold untilPause
  rw [List.reverse_reverse]
  exact List.dropWhile_suffix _

namespace Capture

open Reassembly (Pool)

variable {settings : Settings}

/-! ### What pauses leave as it is -/

theorem completed_sweep (c : Capture) : ∀ cutoff : Option Nat,
    c.completed <:+ (c.sweep cutoff).completed
  | none => List.suffix_refl _
  | some _ => List.suffix_append ..

/-- What has been completed stays so. -/
theorem completed_take (c : Capture) : ∀ reading : Reading,
    c.completed <:+ (c.take settings reading).completed
  | .record _ => List.suffix_append ..
  | .timedOut pause =>
    completed_sweep { c with elapsed := c.elapsed + pause } _

theorem completed_foldl_take : ∀ (readings : List Reading) (c : Capture),
    c.completed <:+ (readings.foldl (take settings) c).completed
  | [], _ => List.suffix_refl _
  | reading :: more, c => (completed_take c reading).trans (completed_foldl_take more _)

/-- What has been captured until the source pauses is the beginning of what is captured. -/
theorem captured_untilPause (machine : Machine) (settings : Settings) (script : Script) :
    let paused := script.untilPause.foldl (take settings) (start machine settings)
    let capture := run machine settings script
    paused.frames.reverse <+: capture.frames.reverse ∧
      paused.chunks settings.classifier <+: capture.chunks settings.classifier := by
  intro paused capture
  obtain ⟨more, hmore⟩ := script.untilPause_prefix
  have hreadings : script.readings.foldl (take settings) (start machine settings)
      = more.foldl (take settings) paused := by
    rw [← hmore, List.foldl_append]
  have hframes : paused.frames <:+ capture.frames := by
    rw [show capture.frames = _ from frames_of_finish _, hreadings, frames_foldl_take settings more]
    exact List.suffix_append ..
  have hcompleted : paused.completed <:+ capture.completed := by
    have hfinish : capture = (more.foldl (take settings) paused).finish := by
      rw [← hreadings]
      rfl
    rw [hfinish]
    exact (completed_foldl_take more paused).trans (List.suffix_append ..)
  refine ⟨List.reverse_prefix.2 hframes, ?_⟩
  obtain ⟨others, hothers⟩ := List.reverse_prefix.2 hcompleted
  rw [chunks, chunks, ← hothers, List.flatMap_append]
  exact List.prefix_append ..

/-! ### Pauses that find nothing -/

/-- Whether all streams have been heard within the time for which they may be silent when a pause is
over. -/
def isLively (settings : Settings) (c : Capture) (pause : Nat) : Bool :=
  (idleSince? settings (c.machine.clock (c.elapsed + pause))).all fun cutoff =>
    c.pool.streams.all fun entry => cutoff ≤ entry.2.lastSeen

/-- Whether that holds of every pause. -/
def staysLively (settings : Settings) : Capture → List Reading → Bool
  | _, [] => true
  | c, .record r :: more => staysLively settings (c.takeRecord settings r) more
  | c, .timedOut pause :: more =>
    c.isLively settings pause && staysLively settings (c.takePause settings pause) more

theorem sweep_of_heard {c : Capture} : ∀ {cutoff : Option Nat},
    (cutoff.all fun cutoff => c.pool.streams.all fun entry => cutoff ≤ entry.2.lastSeen) = true →
      c.sweep cutoff = c
  | none, _ => rfl
  | some cutoff, h => by
    rw [sweep, Pool.flushOlderThan_of_heard h]
    rfl

/-- A pause that finds nothing takes time and nothing else. -/
theorem takePause_of_isLively {c : Capture} {pause : Nat} (h : c.isLively settings pause = true) :
    c.takePause settings pause = { c with elapsed := c.elapsed + pause } :=
  sweep_of_heard h

/-- A machine that shows what that of a capture shows when the next frame comes feeds the frame to
the pool as the capture does. -/
theorem feed_cons {machine : Machine} {c : Capture} {n : Nat}
    (hnow : machine.clock n = c.machine.clock (c.elapsed + 1) ∧
      machine.order n = c.machine.order (c.elapsed + 1)) (frame : Frame) (more : List Frame) :
    feed machine n c.pool (frame :: more) =
      ((feed machine (n + 1) (c.takeFrame frame).pool more).1,
        (c.assembled frame).2 ++ (feed machine (n + 1) (c.takeFrame frame).pool more).2) := by
  simp only [feed, takeFrame, afterPool, assembled]
  rcases frame.layers.segment with _ | segment
  · rfl
  · simp only [hnow]

/-- A capture in which pauses find nothing feeds the frames to its pool, on any machine that shows
from some time on what its own shows when each record comes. -/
theorem foldl_take {machine : Machine} : ∀ {readings : List Reading} {c : Capture} {n : Nat},
    (∀ k, machine.clock (n + k) = c.machine.clock (c.elapsed + moment readings (k + 1)) ∧
      machine.order (n + k) = c.machine.order (c.elapsed + moment readings (k + 1))) →
    staysLively settings c readings = true →
    let fed := feed machine n c.pool (framesOf settings ⟨readings, none⟩)
    let last := readings.foldl (take settings) c
    last.pool = fed.1 ∧ last.completed = fed.2.reverse ++ c.completed
  | [], c, n, _, _ => ⟨rfl, rfl⟩
  | .record r :: more, c, n, hm, hlively => by
    have hnow := hm 0
    simp only [moment, Nat.add_zero, Nat.zero_add] at hnow
    have hrest : ∀ k, machine.clock (n + 1 + k)
          = c.machine.clock (c.elapsed + 1 + moment more (k + 1)) ∧
        machine.order (n + 1 + k) = c.machine.order (c.elapsed + 1 + moment more (k + 1)) := by
      intro k
      have hk := hm (k + 1)
      simp only [moment] at hk
      rwa [Nat.add_assoc, Nat.add_comm 1 k, Nat.add_assoc c.elapsed, Nat.add_comm 1]
    obtain ⟨hpool, hcompleted⟩ := foldl_take (c := c.takeRecord settings r) hrest hlively
    have hframes : framesOf settings ⟨.record r :: more, none⟩
      = .decode (r.clamp settings.snapshotLength) :: framesOf settings ⟨more, none⟩ := rfl
    rw [hframes, feed_cons hnow]
    refine ⟨hpool, hcompleted.trans ?_⟩
    rw [List.reverse_append, List.append_assoc]
    rfl
  | .timedOut pause :: more, c, n, hm, hlively => by
    simp only [staysLively, Bool.and_eq_true] at hlively
    obtain ⟨hquiet, hlively⟩ := hlively
    rw [takePause_of_isLively hquiet] at hlively
    rw [List.foldl_cons, take, takePause_of_isLively hquiet]
    refine foldl_take (c := { c with elapsed := c.elapsed + pause }) (fun k => ?_) hlively
    have hk := hm k
    simp only [moment] at hk
    rwa [Nat.add_assoc]

/-- Where pauses find nothing, what is captured is what the frames of the script give in sequence,
on any machine on which the times of the records come in the same order as with all pauses. -/
theorem captured_run {machine other : Machine} {script : Script} {clock : Nat → Nat}
    (hclock : StrictMono clock) (hother : machine.paused script.readings = other.showing clock)
    (hlively : staysLively settings (start machine settings) script.readings = true) :
    let frames := framesOf settings script
    let streams := streamsOf other settings.pages frames
    let capture := run machine settings script
    capture.frames.reverse = frames ∧ capture.completed.reverse = streams ∧
      capture.chunks settings.classifier = streams.flatMap (chunksOf settings.classifier) ∧
      capture.pool.evictions = evictionsOf other settings.pages frames := by
  intro frames streams capture
  have hmoments : ∀ k,
      (machine.paused script.readings).clock (1 + k) =
          machine.clock ((start machine settings).elapsed + moment script.readings (k + 1)) ∧
        (machine.paused script.readings).order (1 + k) =
          machine.order ((start machine settings).elapsed + moment script.readings (k + 1)) := by
    intro k
    rw [Nat.add_comm 1 k, start, Nat.zero_add]
    exact ⟨rfl, rfl⟩
  obtain ⟨hpool, hcompleted⟩ := foldl_take hmoments hlively
  have hstreams : capture.completed.reverse = streamsOf other settings.pages frames := by
    rw [← streamsOf_showing hclock, ← hother]
    show (Capture.finish _).completed.reverse = _
    rw [finish, afterPool, hpool, hcompleted, List.reverse_append, List.reverse_append,
      List.reverse_reverse, List.reverse_reverse]
    rfl
  refine ⟨frames_run machine settings script, hstreams, ?_, ?_⟩
  · rw [chunks, hstreams]
  · rw [← evictionsOf_showing hclock, ← hother]
    show (Capture.finish _).pool.evictions = _
    rw [finish, afterPool, hpool]
    exact Pool.evictions_completeAll _ _ _

end Capture

end Trawl
