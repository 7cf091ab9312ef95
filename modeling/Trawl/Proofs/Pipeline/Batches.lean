import Mathlib.Tactic.ByContra
import Trawl.Pipeline.Filter
import Trawl.Proofs.Pipeline.Verdict

/-!
# Batches

A filter judges its input batch by batch, each with the memory that the predicate had after the one
before. Whatever batches it makes, it follows the verdict on all of them at once (`Filter.Follows`):
what senders and receivers do keeps that, and so does every step of the filter (`Follows.step?`,
`Follows.breakOff?`).
-/

namespace Trawl

namespace Pipeline

namespace Phase

variable {α : Type}

/-- The items that were taken from the input but not judged yet. -/
def batch : Phase α → List α
  | .gathering batch => batch
  | .judging batch => batch
  | _ => []

/-- The accepted items that are still to be passed on. -/
def pending : Phase α → List α
  | .passing accepted _ => accepted
  | _ => []

/-- The failure that is still to be reported. -/
def failure : Phase α → Option String
  | .passing _ failure => failure
  | _ => none

end Phase

namespace Filter

variable {σ α : Type}

/-- A filter that never broke off a turn. What it passed on and what is pending are what the
predicate accepted of the items that it has judged. -/
structure Unbroken (p : Predicate σ α) (reported : List String) (judged : List α) (f : Filter σ α) :
    Prop where
  memory : f.memory = (p.verdict judged).memory
  passed : f.output.hasReceiver = true →
    f.output.history ++ f.phase.pending = (p.verdict judged).filtered.accepted
  failure : (p.verdict judged).filtered.failure.toList = reported ++ f.phase.failure.toList
  ended : reported ≠ [] → f.phase = .idle ∧ f.done = true

/-- A filter that follows the verdict on the items that it has judged. `calm` says that it never
broke off a turn; `reported` are the failures that it reported. -/
structure Follows (p : Predicate σ α) (calm : Prop) (reported : List String) (judged : List α)
    (f : Filter σ α) : Prop where
  predicate : f.predicate = p
  asked : f.asked = (p.verdict judged).asked
  arrived : ∃ lost, f.input.history = judged ++ f.phase.batch ++ f.input.waiting ++ lost ∧
    (f.input.hasReceiver = true → lost = [])
  passed : f.output.history <+: (p.verdict judged).filtered.accepted
  forwarded : f.forwarded = f.output.history.length
  standing : f.Unbroken p reported judged ∨ f.phase = .idle ∧ f.done = true ∧ ¬ calm
  drained : calm → f.done = true → (p.verdict judged).filtered.failure = none →
    f.input.isOpen = false ∧ f.input.waiting = [] ∧ f.input.history = judged ++ f.phase.batch

variable {p : Predicate σ α} {calm : Prop} {reported : List String} {judged : List α}
  {f : Filter σ α}

/-! ### What senders and receivers do -/

theorem Follows.send? (h : f.Follows p calm reported judged) (hopen : f.input.isOpen = true)
    {a : α} {input : Queue α} (hs : f.input.send? a = some input) :
    Follows p calm reported judged { f with input } := by
  rcases Queue.send?_cases hs with ⟨-, rfl⟩ | ⟨hreceiver, rfl⟩
  · exact h
  obtain ⟨lost, hhistory, hlost⟩ := h.arrived
  refine { h with
    arrived := ⟨[], ?_, fun _ => rfl⟩
    standing := h.standing.imp (fun hu => { hu with }) id
    drained := fun hcalm hdone hnone => ?_ }
  · show f.input.history ++ [a] = judged ++ f.phase.batch ++ (f.input.waiting ++ [a]) ++ []
    rw [hhistory, hlost hreceiver]
    simp
  · have := (h.drained hcalm hdone hnone).1
    rw [hopen] at this
    cases this

theorem Follows.close (h : f.Follows p calm reported judged) :
    Follows p calm reported judged { f with input := f.input.close } :=
  { h with
    standing := h.standing.imp (fun hu => { hu with }) id
    drained := fun hcalm hdone hnone => ⟨rfl, (h.drained hcalm hdone hnone).2⟩ }

theorem Follows.receive? (h : f.Follows p calm reported judged) {taken : α × Queue α}
    (hr : f.output.receive? = some taken) :
    Follows p calm reported judged { f with output := taken.2 } := by
  unfold Queue.receive? at hr
  split at hr
  · cases hr
  · rw [← Option.some.inj hr]
    exact { h with standing := h.standing.imp (fun hu => { hu with }) id }

theorem Follows.abandon (h : f.Follows p calm reported judged) :
    Follows p calm reported judged { f with output := f.output.abandon } := by
  refine { h with standing := h.standing.imp (fun hu => ?_) id }
  exact { hu with passed := fun hreceiver => by cases hreceiver }

theorem Follows.stop (h : f.Follows p calm reported judged) :
    f.stop.Follows p calm reported judged := by
  obtain ⟨lost, hhistory, -⟩ := h.arrived
  refine { h with
    arrived := ⟨f.input.waiting ++ lost, ?_, fun hreceiver => by cases hreceiver⟩
    standing := h.standing.imp (fun hu => { hu with }) id
    drained := fun hcalm hdone hnone => ?_ }
  · show f.input.history = judged ++ f.phase.batch ++ [] ++ (f.input.waiting ++ lost)
    rw [hhistory]
    simp
  · obtain ⟨hopen, -, hall⟩ := h.drained hcalm hdone hnone
    exact ⟨hopen, rfl, hall⟩

/-! ### What the filter does -/

/-- After a step, the filter follows the verdict; where its turn is over, it waits for the next. -/
def Turn.Follows (p : Predicate σ α) (calm : Prop) (reported : List String) : Turn σ α → Prop
  | .goesOn f => ∃ judged, f.Follows p calm reported judged
  | .over f => f.phase = .idle ∧ ∃ judged, f.Follows p calm reported judged
  | .failed message f =>
    f.phase = .idle ∧ ∃ judged, f.Follows p calm (reported ++ [message]) judged

/-- In the middle of a turn, nothing is broken off or reported yet. -/
theorem Follows.unbroken (h : f.Follows p calm reported judged) (hphase : f.phase ≠ .idle) :
    f.Unbroken p reported judged ∧ reported = [] := by
  rcases h.standing with hu | ⟨hidle, -⟩
  · refine ⟨hu, ?_⟩
    by_contra hreported
    exact hphase (hu.ended hreported).1
  · exact absurd hidle hphase

/-- A phase may be left for one that holds the same items and the same failure. -/
theorem Follows.withPhase (h : f.Follows p calm [] judged) (hu : f.Unbroken p [] judged)
    {phase : Phase α} (hbatch : phase.batch = f.phase.batch)
    (hpending : phase.pending = f.phase.pending) (hfailure : phase.failure = f.phase.failure) :
    Follows p calm [] judged { f with phase } := by
  refine { h with arrived := ?_, standing := .inl ?_, drained := ?_ }
  · show ∃ lost, f.input.history = judged ++ phase.batch ++ f.input.waiting ++ lost ∧ _
    rw [hbatch]
    exact h.arrived
  · refine { hu with passed := ?_, failure := ?_, ended := fun hne => absurd rfl hne }
    · show _ → f.output.history ++ phase.pending = _
      rw [hpending]
      exact hu.passed
    · show _ = [] ++ phase.failure.toList
      rw [hfailure]
      exact hu.failure
  · show calm → f.done = true → _ → _ ∧ _ ∧ f.input.history = judged ++ phase.batch
    rw [hbatch]
    exact h.drained

theorem Follows.gathered (h : f.Follows p calm reported judged) {batch : List α}
    (hphase : f.phase = .gathering batch) : (f.gathered batch).Follows p calm reported := by
  obtain ⟨hu, rfl⟩ := h.unbroken (by simp [hphase])
  unfold Filter.gathered
  split
  · rename_i hempty
    rw [List.isEmpty_iff.1 hempty] at hphase
    exact ⟨rfl, judged, h.withPhase hu (by rw [hphase]; rfl) (by rw [hphase]; rfl)
      (by rw [hphase]; rfl)⟩
  · exact ⟨judged, h.withPhase hu (by rw [hphase]; rfl) (by rw [hphase]; rfl)
      (by rw [hphase]; rfl)⟩

theorem Follows.take (h : f.Follows p calm reported judged) {batch : List α}
    (hphase : f.phase = .gathering batch) {a : α} {more : List α}
    (hw : f.input.waiting = a :: more) :
    Follows p calm reported judged
      { f with input := { f.input with waiting := more }, phase := .gathering (batch ++ [a]) } := by
  obtain ⟨hu, rfl⟩ := h.unbroken (by simp [hphase])
  obtain ⟨lost, hhistory, hlost⟩ := h.arrived
  have hpassed := hu.passed
  have hfailure := hu.failure
  rw [hphase] at hpassed hfailure hhistory
  refine { h with arrived := ⟨lost, ?_, hlost⟩, standing := .inl ?_, drained := ?_ }
  · show f.input.history = judged ++ (batch ++ [a]) ++ more ++ lost
    rw [hhistory, hw]
    simp [Phase.batch]
  · exact { hu with passed := hpassed, failure := hfailure, ended := fun hne => absurd rfl hne }
  · intro hcalm hdone hnone
    have hempty := (h.drained hcalm hdone hnone).2.1
    rw [hw] at hempty
    cases hempty

theorem Follows.drain (h : f.Follows p calm reported judged) (hphase : f.phase ≠ .idle)
    (hreceiver : f.input.hasReceiver = true) (hopen : f.input.isOpen = false)
    (hw : f.input.waiting = []) : Follows p calm reported judged { f with done := true } := by
  obtain ⟨hu, rfl⟩ := h.unbroken hphase
  obtain ⟨lost, hhistory, hlost⟩ := h.arrived
  refine { h with
    standing := .inl { hu with ended := fun hne => absurd rfl hne }
    drained := fun _ _ _ => ⟨hopen, hw, ?_⟩ }
  show f.input.history = judged ++ f.phase.batch
  rw [hhistory, hw, hlost hreceiver, List.append_nil, List.append_nil]

theorem Follows.gather (h : f.Follows p calm reported judged) {batch : List α}
    (hphase : f.phase = .gathering batch) (hreceiver : f.input.hasReceiver = true) :
    (f.gather batch).Follows p calm reported := by
  unfold Filter.gather Queue.receive?
  split
  · exact h.gathered hphase
  rcases hw : f.input.waiting with _ | ⟨a, more⟩
  · dsimp only
    split
    · exact h.gathered hphase
    · rename_i hopen
      have hdrained := h.drain (by simp [hphase]) hreceiver (by simpa using hopen) hw
      exact hdrained.gathered hphase
  · exact ⟨judged, h.take hphase hw⟩

theorem Follows.judge (h : f.Follows p calm reported judged) {batch : List α}
    (hphase : f.phase = .judging batch) :
    (f.judge batch).Follows p calm reported (judged ++ batch) := by
  obtain ⟨hu, rfl⟩ := h.unbroken (by simp [hphase])
  have hpassed := hu.passed
  have hfailure := hu.failure
  have harrived := h.arrived
  have hdrained := h.drained
  rw [hphase] at hpassed hfailure harrived hdrained
  have hnone : (p.verdict judged).filtered.failure = none := Option.toList_eq_nil_iff.1 hfailure
  -- The batch is judged with what the predicate remembers of everything before it.
  have hverdict : p.verdict (judged ++ batch) =
      (p.verdict judged).andThen (f.predicate.judgeAll f.memory batch) := by
    rw [h.predicate, hu.memory]
    exact Predicate.judgeAll_append_of_none hnone batch
  refine { h with asked := ?_, arrived := ?_, passed := ?_, standing := .inl ?_, drained := ?_ }
  · show f.asked ++ _ = _
    rw [hverdict, h.asked]
    rfl
  · obtain ⟨lost, hhistory, hlost⟩ := harrived
    refine ⟨lost, ?_, hlost⟩
    show f.input.history = judged ++ batch ++ [] ++ f.input.waiting ++ lost
    rw [hhistory, List.append_nil]
    rfl
  · exact h.passed.trans (p.accepted_verdict_append judged batch)
  · refine ⟨?_, fun hreceiver => ?_, ?_, fun hne => absurd rfl hne⟩
    · rw [hverdict]
      rfl
    · have hall : f.output.history = (p.verdict judged).filtered.accepted := by
        rw [← hpassed hreceiver]
        exact (List.append_nil _).symm
      show f.output.history ++ _ = _
      rw [hall, hverdict]
      rfl
    · rw [hverdict]
      rfl
  · intro hcalm hdone _
    obtain ⟨hopen, hw, hhistory⟩ := hdrained hcalm hdone hnone
    refine ⟨hopen, hw, ?_⟩
    show f.input.history = judged ++ batch ++ []
    rw [hhistory, List.append_nil]
    rfl

theorem Follows.forward? (h : f.Follows p calm reported judged) {a : α} {more : List α}
    {failure : Option String} (hphase : f.phase = .passing (a :: more) failure) {f' : Filter σ α}
    (hs : f.forward? a more failure = some f') : f'.Follows p calm reported judged := by
  obtain ⟨hu, rfl⟩ := h.unbroken (by simp [hphase])
  have hpassed := hu.passed
  have hfailure := hu.failure
  have harrived := h.arrived
  have hdrained := h.drained
  rw [hphase] at hpassed hfailure harrived hdrained
  obtain ⟨output, hsend, rfl⟩ := Option.map_eq_some_iff.1 hs
  rcases Queue.send?_cases hsend with ⟨hreceiver, rfl⟩ | ⟨hreceiver, rfl⟩
  · refine { h with
      arrived := harrived, forwarded := ?_, standing := .inl ?_, drained := hdrained }
    · rw [hreceiver]
      exact h.forwarded
    · refine { hu with passed := ?_, failure := hfailure, ended := fun hne => absurd rfl hne }
      intro hother
      rw [hreceiver] at hother
      cases hother
  · have hmore : f.output.history ++ [a] ++ more = (p.verdict judged).filtered.accepted := by
      rw [← hpassed hreceiver, List.append_assoc]
      rfl
    refine { h with
      arrived := harrived, passed := ⟨more, hmore⟩, forwarded := ?_, standing := .inl ?_,
      drained := hdrained }
    · rw [hreceiver]
      show f.forwarded + 1 = (f.output.history ++ [a]).length
      rw [h.forwarded, List.length_append, List.length_singleton]
    · exact { hu with
        passed := fun _ => hmore, failure := hfailure, ended := fun hne => absurd rfl hne }

theorem Follows.conclude (h : f.Follows p calm reported judged) {failure : Option String}
    (hphase : f.phase = .passing [] failure) : (f.conclude failure).Follows p calm reported := by
  obtain ⟨hu, rfl⟩ := h.unbroken (by simp [hphase])
  have hfailure := hu.failure
  cases failure with
  | none =>
    exact ⟨rfl, judged, h.withPhase hu (by rw [hphase]; rfl) (by rw [hphase]; rfl)
      (by rw [hphase]; rfl)⟩
  | some message =>
    have hpassed := hu.passed
    have harrived := h.arrived
    rw [hphase] at hpassed hfailure harrived
    refine ⟨rfl, judged, { h with arrived := harrived, standing := .inl ?_, drained := ?_ }⟩
    · exact ⟨hu.memory, hpassed, hfailure, fun _ => ⟨rfl, rfl⟩⟩
    · intro _ _ hnone
      rw [hnone] at hfailure
      cases hfailure

/-- Every step of a filter whose input still has it as its receiver. -/
theorem Follows.step? (h : f.Follows p calm reported judged)
    (hreceiver : f.input.hasReceiver = true) {turn : Turn σ α} (hs : f.step? = some turn) :
    turn.Follows p calm reported := by
  unfold Filter.step? at hs
  split at hs
  · rename_i hphase
    rw [← Option.some.inj hs]
    split
    · exact ⟨hphase, judged, h⟩
    · rename_i hdone
      have hu : f.Unbroken p reported judged := by
        rcases h.standing with hu | ⟨-, hover, -⟩
        · exact hu
        · exact absurd hover hdone
      have hreported : reported = [] := by
        by_contra hne
        exact hdone (hu.ended hne).2
      subst hreported
      exact ⟨judged, h.withPhase hu (by rw [hphase]; rfl) (by rw [hphase]; rfl)
        (by rw [hphase]; rfl)⟩
  · rename_i hphase
    rw [← Option.some.inj hs]
    exact h.gather hphase hreceiver
  · rename_i hphase
    rw [← Option.some.inj hs]
    exact ⟨_, h.judge hphase⟩
  · rename_i hphase
    rw [← Option.some.inj hs]
    exact h.conclude hphase
  · rename_i hphase
    obtain ⟨f', hf, rfl⟩ := Option.map_eq_some_iff.1 hs
    exact ⟨judged, h.forward? hphase hf⟩

/-- Breaking off a turn loses items, but none out of their order. -/
theorem Follows.breakOff? (h : f.Follows p calm reported judged) (hbroken : ¬ calm)
    {turn : Turn σ α} (hs : f.breakOff? = some turn) : turn.Follows p calm reported := by
  unfold Filter.breakOff? at hs
  split at hs
  · rename_i batch hphase
    rw [← Option.some.inj hs]
    have hjudge := h.judge hphase
    exact ⟨rfl, _, { hjudge with
      standing := .inr ⟨rfl, rfl, hbroken⟩
      drained := fun hcalm => absurd hcalm hbroken }⟩
  · rename_i a more failure hphase
    rw [← Option.some.inj hs]
    have harrived := h.arrived
    rw [hphase] at harrived
    cases failure with
    | none =>
      exact ⟨rfl, judged, { h with
        arrived := harrived
        standing := .inr ⟨rfl, rfl, hbroken⟩
        drained := fun hcalm => absurd hcalm hbroken }⟩
    | some message =>
      exact ⟨rfl, judged, { h with
        arrived := harrived
        standing := .inr ⟨rfl, rfl, hbroken⟩
        drained := fun hcalm => absurd hcalm hbroken }⟩
  · cases hs

/-! ### What that means for the input as a whole -/

theorem Follows.output_prefix (h : f.Follows p calm reported judged) :
    f.output.history <+: (p.filter f.input.history).accepted := by
  obtain ⟨lost, hhistory, -⟩ := h.arrived
  rw [hhistory, p.filter_eq, List.append_assoc, List.append_assoc]
  exact h.passed.trans (p.accepted_verdict_append judged _)

theorem Follows.asked_prefix (h : f.Follows p calm reported judged) :
    f.asked <+: f.input.history := by
  obtain ⟨lost, hhistory, -⟩ := h.arrived
  rw [hhistory, h.asked, List.append_assoc, List.append_assoc]
  exact (p.asked_judgeAll p.start judged).trans (List.prefix_append ..)

/-- A filter that takes nothing more and never broke off a turn has passed on all that is accepted
of its input, and it has reported the failure of the predicate if there is one. -/
theorem Follows.finished (h : f.Follows p calm reported judged) (hcalm : calm)
    (hphase : f.phase = .idle) (hdone : f.done = true) (hreceiver : f.output.hasReceiver = true) :
    f.output.history = (p.filter f.input.history).accepted ∧
      reported = (p.filter f.input.history).failure.toList := by
  have hu : f.Unbroken p reported judged := by
    rcases h.standing with hu | ⟨-, -, hbroken⟩
    · exact hu
    · exact absurd hcalm hbroken
  have hpassed := hu.passed hreceiver
  have hfailure := hu.failure
  rw [hphase] at hpassed hfailure
  have hpassed : f.output.history = (p.verdict judged).filtered.accepted :=
    (List.append_nil _).symm.trans hpassed
  have hfailure : (p.verdict judged).filtered.failure.toList = reported :=
    hfailure.trans (List.append_nil _)
  -- What was not judged changes nothing: either there is none of it, or it comes after a failure.
  have hall : p.verdict f.input.history = p.verdict judged := by
    cases hf : (p.verdict judged).filtered.failure with
    | none =>
      have hhistory := (h.drained hcalm hdone hf).2.2
      rw [hphase] at hhistory
      rw [hhistory]
      exact congrArg p.verdict (List.append_nil judged)
    | some message =>
      obtain ⟨lost, hhistory, -⟩ := h.arrived
      rw [hhistory, List.append_assoc, List.append_assoc]
      exact Predicate.judgeAll_append_of_some hf _
  rw [p.filter_eq, hall]
  exact ⟨hpassed, hfailure.symm⟩

end Filter

end Pipeline

end Trawl
