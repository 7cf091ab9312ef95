import Trawl.Proofs.Pipeline.Progress
import Trawl.Proofs.Pipeline.Undisturbed

/-!
# What is still to be done

The reader and the capture leave less to do with each of their steps (`Engine.OnCourse.toDo_read`,
`Engine.OnCourse.toDo_capture`), and so does the caller when it takes an item
(`Lane.toPass_receive?`). So does a filter, unless it begins or ends a turn in which nothing was
done (`Filter.Steps`).
-/

namespace Trawl.Pipeline

open Capture (chunksOf framesOf streamsOf)

/-! ### Filters -/

namespace Phase

variable {α : Type}

/-- What is still to be done for the items of a phase. -/
def toPass : Phase α → Nat
  -- an item is worth less after every step, and a batch of a single one still pays for its failure
  | .idle => 0
  | .gathering batch => 6 * batch.length
  | .judging batch => 3 * batch.length + 2
  | .passing accepted failure => 2 * accepted.length + failure.toList.length

end Phase

namespace Filter

variable {σ α : Type} {f : Filter σ α} {turn : Turn σ α}

/-- What a filter and its caller still have to do for the items that have come. -/
def toPass (f : Filter σ α) : Nat :=
  7 * f.input.waiting.length + f.phase.toPass + f.output.waiting.length + (!f.done).toNat

/-- Whether there is something for the next turn of a filter. -/
def Needs (f : Filter σ α) : Prop :=
  f.input.waiting ≠ [] ∨ f.input.isOpen = false ∧ f.done = false

/-- A step in the turn of a filter: it leaves less to do, or it begins or ends a turn in which
nothing was done. -/
inductive Steps (f : Filter σ α) : Turn σ α → Prop
  | works {turn : Turn σ α} : turn.filter.toPass < f.toPass → Steps f turn
  | begins : f.phase = .idle → f.done = false →
      Steps f (.goesOn { f with phase := .gathering [] })
  | rests : f.phase = .idle → f.done = true → Steps f (.over f)
  | empty : f.phase = .gathering [] → ¬ f.Needs → Steps f (.over { f with phase := .idle })
  | passed : f.phase = .passing [] none → Steps f (.over { f with phase := .idle })

/-- A batch that is gathered is judged, unless it is empty. -/
theorem steps_gathered {batch : List α} (hphase : f.phase = .gathering batch)
    (hneeds : batch = [] → ¬ f.Needs) : f.Steps (f.gathered batch) := by
  unfold gathered
  rcases batch with _ | ⟨a, more⟩
  · exact .empty hphase (hneeds rfl)
  · refine .works ?_
    simp only [List.isEmpty_cons, Bool.false_eq_true, if_false, Turn.filter, toPass, hphase,
      Phase.toPass, List.length_cons]
    omega

theorem steps_gather (hburst : 0 < f.burst) {batch : List α} (hphase : f.phase = .gathering batch) :
    f.Steps (f.gather batch) := by
  unfold gather
  split
  · rename_i hfull
    refine steps_gathered hphase fun hnil => ?_
    rw [hnil, List.length_nil] at hfull
    omega
  unfold Queue.receive?
  rcases hw : f.input.waiting with _ | ⟨a, more⟩
  · dsimp only
    split
    · rename_i hopen
      refine steps_gathered hphase fun _ hneeds => ?_
      rcases hneeds with hne | ⟨hclosed, -⟩
      · exact hne hw
      · cases hopen.symm.trans hclosed
    · cases hdone : f.done with
      | true =>
        have hsame : { f with done := true } = f := by rw [← hdone]
        rw [hsame]
        refine steps_gathered hphase fun _ hneeds => ?_
        rcases hneeds with hne | ⟨-, hgoing⟩
        · exact hne hw
        · cases hdone.symm.trans hgoing
      | false =>
        refine .works ?_
        rcases batch with _ | ⟨a, more⟩
        · simp [gathered, Turn.filter, toPass, Phase.toPass, hdone, hphase]
        · simp only [gathered, Turn.filter, toPass, Phase.toPass, hdone, hphase, List.isEmpty_cons,
            Bool.false_eq_true, if_false, List.length_cons, Bool.not_true, Bool.not_false,
            Bool.toNat_true, Bool.toNat_false]
          omega
  · refine .works ?_
    simp only [Turn.filter, toPass, Phase.toPass, hphase, hw, List.length_append, List.length_cons,
      List.length_nil]
    omega

theorem steps_of_step? (hburst : 0 < f.burst) (hs : f.step? = some turn) : f.Steps turn := by
  unfold step? at hs
  split at hs
  · rename_i hphase
    rw [← Option.some.inj hs]
    split
    · rename_i hdone
      exact .rests hphase hdone
    · rename_i hdone
      exact .begins hphase (by simpa using hdone)
  · rename_i hphase
    exact Option.some.inj hs ▸ steps_gather hburst hphase
  · rename_i batch hphase
    have := f.predicate.length_accepted_judgeAll f.memory batch
    have hfailure : (f.predicate.judgeAll f.memory batch).filtered.failure.toList.length ≤ 1 :=
      Option.length_toList_le
    refine Option.some.inj hs ▸ .works ?_
    simp only [Turn.filter, judge, toPass, Phase.toPass, hphase]
    omega
  · rename_i failure hphase
    rw [← Option.some.inj hs]
    cases failure with
    | none => exact .passed hphase
    | some message =>
      refine .works ?_
      simp [conclude, Turn.filter, toPass, Phase.toPass, hphase]
      omega
  · rename_i a more failure hphase
    obtain ⟨f', hf, rfl⟩ := Option.map_eq_some_iff.1 hs
    obtain ⟨output, hsend, rfl⟩ := Option.map_eq_some_iff.1 hf
    refine .works ?_
    simp only [Turn.filter, toPass, Phase.toPass, hphase, List.length_cons]
    rcases Queue.send?_cases hsend with ⟨-, rfl⟩ | ⟨-, rfl⟩
    · omega
    · simp only [Queue.put, List.length_append, List.length_cons, List.length_nil]
      omega

/-- A filter whose caller has taken everything can go on. -/
theorem exists_step? (hcapacity : 0 < f.output.capacity) (hw : f.output.waiting = []) :
    ∃ turn, f.step? = some turn := by
  unfold step?
  split
  · exact ⟨_, rfl⟩
  · exact ⟨_, rfl⟩
  · exact ⟨_, rfl⟩
  · exact ⟨_, rfl⟩
  · rename_i a more failure hphase
    have hroom : f.output.hasRoom = true := by
      simpa [Queue.hasRoom, hw] using hcapacity
    unfold forward? Queue.send?
    cases f.output.hasReceiver
    · exact ⟨_, rfl⟩
    · rw [hroom]
      exact ⟨_, rfl⟩

end Filter

/-! ### Lanes -/

namespace Lane

variable {σ α : Type} {l l' : Lane σ α}

/-- What a lane and its caller still have to do for the items that have come. -/
def toPass : Lane σ α → Nat
  | .direct q => q.waiting.length
  | .filtered f => f.toPass

theorem toPass_send? {a : α} (h : l.send? a = some l') : l'.toPass ≤ l.toPass + 7 := by
  obtain ⟨q, hsend, rfl⟩ := Option.map_eq_some_iff.1 h
  have hwaiting : q.waiting.length ≤ l.entrance.waiting.length + 1 := by
    rcases Queue.send?_cases hsend with ⟨-, rfl⟩ | ⟨-, rfl⟩
    · exact Nat.le_succ _
    · simp [Queue.put]
  cases l with
  | direct q' =>
    simp only [toPass, withEntrance, entrance] at hwaiting ⊢
    omega
  | filtered f =>
    simp only [toPass, withEntrance, entrance, Filter.toPass] at hwaiting ⊢
    omega

theorem toPass_receive? (h : l.receive? = some l') : l'.toPass < l.toPass := by
  obtain ⟨taken, htaken, rfl⟩ := Option.map_eq_some_iff.1 h
  have hwaiting : taken.2.waiting.length + 1 = l.exit.waiting.length := by
    unfold Queue.receive? at htaken
    split at htaken
    · cases htaken
    · rename_i hw
      rw [← Option.some.inj htaken, hw]
      rfl
  cases l with
  | direct q =>
    simp only [toPass, withExit, exit] at hwaiting ⊢
    omega
  | filtered f =>
    simp only [toPass, withExit, exit, Filter.toPass] at hwaiting ⊢
    omega

theorem exists_receive? (hw : l.exit.waiting ≠ []) : ∃ l', l.receive? = some l' := by
  unfold receive? Queue.receive?
  split
  · contradiction
  · exact ⟨_, rfl⟩

theorem toPass_close (l : Lane σ α) : l.close.toPass = l.toPass := by
  cases l with
  | direct q => rfl
  | filtered f => rfl

theorem toPass_stopFilter (l : Lane σ α) : l.stopFilter.toPass ≤ l.toPass := by
  cases l with
  | direct q => exact Nat.le_refl _
  | filtered f =>
    simp only [stopFilter, Filter.stop, toPass, Filter.toPass, Queue.abandon, Queue.close,
      List.length_nil]
    omega

end Lane

/-! ### Sessions -/

/-- How many steps the dispatcher is away from its stop, its rounds not counted. -/
def Dispatch.toStop : Dispatch → Nat
  | .stopped => 0
  | _ => 1

namespace Engine

variable {σ τ : Type} {s : Session σ τ} {machine : Machine} {settings : Settings} {script : Script}
  {e e' : Engine σ τ}

/-- What the reader and the capture still have to do. -/
def toCapture (machine : Machine) (settings : Settings) (script : Script) (e : Engine σ τ) : Nat :=
  let streams := streamsOf machine settings.pages (framesOf settings script)
  e.script.size + e.isReading.toNat + 2 * (e.script.items settings).length +
    2 * e.source.waiting.length + e.progress.left + (e.tasks.flatMap Task.frames).length +
    (streams.length - e.streamsCompleted) +
    ((streams.flatMap (chunksOf settings.classifier)).length - e.chunksEmitted)

/-- What the reader, the capture, the filters and the caller still have to do. What comes to a lane
is worth less than what was to be done for it before. -/
def toPass (machine : Machine) (settings : Settings) (script : Script) (e : Engine σ τ) : Nat :=
  8 * e.toCapture machine settings script + e.packets.toPass + e.chunks.toPass

/-- What is still to be done. -/
def toDo (machine : Machine) (settings : Settings) (script : Script) (e : Engine σ τ) : Nat :=
  e.toPass machine settings script + e.dispatch.toStop

theorem OnCourse.toDo_read (h : e.OnCourse machine settings script) (hr : e.read? = some e') :
    e'.toDo machine settings script < e.toDo machine settings script := by
  obtain ⟨hreading, hstep⟩ := readStep_of_read? hr
  cases hstep with
  | pause hsize hitems =>
    simp only [toDo, toPass, toCapture, hitems settings]
    omega
  | hand hsize hitems =>
    rw [h.settings_eq] at hitems
    simp only [toDo, toPass, toCapture, hitems, Queue.put, List.length_append, List.length_cons,
      List.length_nil]
    omega
  | drop hitems hreceiver =>
    rw [h.settings_eq] at hitems
    simp [(h.capturing_of_item hitems).2] at hreceiver
  | stop hitems =>
    simp only [toDo, toPass, toCapture, stopReading, hreading, Queue.close, Bool.toNat_true,
      Bool.toNat_false]
    omega

/-- The streams and the content that the capture is busy with belong to what the script gives. -/
theorem OnCourse.pending_le (h : e.OnCourse machine settings script) :
    e.streamsCompleted + (e.tasks.flatMap Task.streams).length
        ≤ (streamsOf machine settings.pages (framesOf settings script)).length ∧
      e.chunksEmitted + (e.tasks.flatMap (Task.chunks settings.classifier)).length
        ≤ ((streamsOf machine settings.pages (framesOf settings script)).flatMap
            (chunksOf settings.classifier)).length := by
  obtain ⟨-, hstreams⟩ := h.captured_prefix
  refine ⟨?_, ?_⟩
  · rw [h.streams, ← List.length_reverse]
    exact hstreams.length_le
  · obtain ⟨more, hmore⟩ := hstreams
    rw [h.chunks, ← hmore, List.flatMap_append, List.length_append]
    exact Nat.le_add_right ..

theorem OnCourse.toDo_capture (h : e.OnCourse machine settings script) (hc : e.capture? = some e') :
    e'.toDo machine settings script < e.toDo machine settings script := by
  obtain ⟨hstreams, hchunks⟩ := h.pending_le
  cases captureStep_of_capture? hc with
  | @classify stream more htasks =>
    simp only [htasks, List.flatMap_cons, Task.streams, List.length_append, List.length_cons]
      at hstreams
    simp only [toDo, toPass, toCapture, htasks, List.flatMap_append, frames_sendChunk,
      List.nil_append, List.flatMap_cons, Task.frames]
    omega
  | @sendChunk chunk more chunks htasks hsend =>
    simp only [htasks, List.flatMap_cons, Task.chunks, List.length_append, List.length_cons]
      at hchunks
    have := Lane.toPass_send? hsend
    simp only [toDo, toPass, toCapture, htasks, List.flatMap_cons, Task.frames, List.nil_append]
    omega
  | @sendFrame frame more packets htasks hsend =>
    have := Lane.toPass_send? hsend
    simp only [toDo, toPass, toCapture, htasks, List.flatMap_cons, Task.frames, List.length_append,
      List.length_cons, List.length_nil]
    omega
  | takeRecord htasks hprogress hw =>
    simp only [toDo, toPass, toCapture, takeFrame, htasks, hw, List.flatMap_append, frames_classify,
      List.flatMap_cons, List.flatMap_nil, Task.frames, List.length_append, List.length_cons,
      List.length_nil]
    omega
  | takeFault htasks hprogress hw =>
    simp only [toDo, toPass, toCapture, Engine.finish, afterPool, report, hprogress, Progress.left,
      htasks, hw, frames_classify, List.flatMap_nil, List.length_cons, List.length_nil]
    omega
  | finish htasks hprogress hw hopen =>
    simp only [toDo, toPass, toCapture, Engine.finish, afterPool, hprogress, Progress.left, htasks,
      frames_classify, List.flatMap_nil]
    omega
  | leave htasks hprogress =>
    simp only [toDo, toPass, toCapture, Engine.leave, hprogress, Progress.left, htasks,
      Queue.abandon, List.length_nil]
    omega
  | stop htasks hprogress hreading =>
    simp only [toDo, toPass, toCapture, Engine.stop, hprogress, Progress.left, Lane.toPass_close]
    omega

end Engine

end Trawl.Pipeline
