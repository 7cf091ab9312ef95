import Trawl.Pipeline.Lane
import Trawl.Proofs.Pipeline.Batches

/-!
# Lanes with filters

What a lane with a filter hands out is said in terms of the items that arrived (`Lane.Refines`). It
follows from an invariant (`Lane.Follows`) that holds of a new lane, and that the capture, the caller
and the turns of the filter keep.
-/

namespace Trawl

namespace Pipeline

/-- A filter to which nothing has come yet. -/
structure Filter.IsNew {σ α : Type} (f : Filter σ α) : Prop where
  memory : f.memory = f.predicate.start
  phase : f.phase = .idle
  done : f.done = false
  asked : f.asked = []
  forwarded : f.forwarded = 0
  input : f.input = .empty f.input.capacity
  output : f.output.history = []

namespace Lane

variable {σ α : Type}

/-- The predicate of the filter, if there is one. -/
def predicate? : Lane σ α → Option (Predicate σ α)
  | .direct _ => none
  | .filtered f => some f.predicate

/-- The items that the capture has sent. -/
def arrived (l : Lane σ α) : List α :=
  l.entrance.history

/-- The items that the predicate was asked about. -/
def asked : Lane σ α → List α
  | .direct _ => []
  | .filtered f => f.asked

def IsNew : Lane σ α → Prop
  | .direct q => q.isOpen = true
  | .filtered f => f.IsNew

/-- What a predicate makes of the items that arrived: the caller gets a beginning of what it accepts,
it is asked about a beginning of the items, each once, and about none after it has failed. -/
structure Refines (p : Predicate σ α) (l : Lane σ α) : Prop where
  predicate : l.predicate? = some p
  delivered : l.delivered <+: (p.filter l.arrived).accepted
  asked : l.asked <+: l.arrived
  failed : ∀ before a after, l.asked = before ++ a :: after →
    (p.filter (before ++ [a])).failure ≠ none → after = []
  forwarded : l.forwarded = l.delivered.length

/-- The filter of a lane, if there is one, follows its predicate. `served` says that it may be in the
middle of a turn, `stopped` that the dispatcher is gone. -/
def Follows (p : Option (Predicate σ α)) (calm : Prop) (reported : List String)
    (served stopped : Prop) : Lane σ α → Prop
  | .direct _ => p = none ∧ reported = []
  | .filtered f => p = some f.predicate ∧
    (∃ judged, f.Follows f.predicate calm reported judged) ∧ (¬ served → f.phase = .idle) ∧
      (¬ stopped → f.input.hasReceiver = true)

variable {p : Option (Predicate σ α)} {calm : Prop} {reported : List String}
  {served stopped served' stopped' : Prop} {l l' : Lane σ α}

/-- What the capture and the caller can do with a lane. -/
inductive Moves (l : Lane σ α) : Lane σ α → Prop
  | rest : Moves l l
  | send {a : α} {l' : Lane σ α} : l.entrance.isOpen = true → l.send? a = some l' → Moves l l'
  | close : Moves l l.close
  | receive {l' : Lane σ α} : l.receive? = some l' → Moves l l'
  | abandon : Moves l l.abandon

theorem Follows.mono (h : l.Follows p calm reported served stopped) (hserved : served → served')
    (hstopped : stopped → stopped') : l.Follows p calm reported served' stopped' := by
  cases l with
  | direct q => exact h
  | filtered f =>
    obtain ⟨hp, hf, hidle, hreceiver⟩ := h
    exact ⟨hp, hf, fun hn => hidle fun hs => hn (hserved hs),
      fun hn => hreceiver fun hs => hn (hstopped hs)⟩

/-- A lane is at rest unless it is its turn and it has a filter. -/
theorem Follows.rests (h : l.Follows p calm reported served stopped) (hgoing : ¬ stopped)
    (hdirect : served → ∃ queue, l = .direct queue) : l.Follows p calm reported False False := by
  cases l with
  | direct queue => exact h
  | filtered f =>
    refine h.mono (fun hs => ?_) hgoing
    obtain ⟨queue, hqueue⟩ := hdirect hs
    cases hqueue

theorem Follows.moves (h : l.Follows p calm reported served stopped) (hm : l.Moves l') :
    l'.Follows p calm reported served stopped ∧ l'.filters = l.filters := by
  cases l with
  | direct q =>
    cases hm with
    | rest => exact ⟨h, rfl⟩
    | send _ hs =>
      obtain ⟨q', -, rfl⟩ := Option.map_eq_some_iff.1 hs
      exact ⟨h, rfl⟩
    | close => exact ⟨h, rfl⟩
    | receive hr =>
      obtain ⟨taken, -, rfl⟩ := Option.map_eq_some_iff.1 hr
      exact ⟨h, rfl⟩
    | abandon => exact ⟨h, rfl⟩
  | filtered f =>
    obtain ⟨hp, ⟨judged, hf⟩, hidle, hreceiver⟩ := h
    cases hm with
    | rest => exact ⟨⟨hp, ⟨judged, hf⟩, hidle, hreceiver⟩, rfl⟩
    | send hopen hs =>
      obtain ⟨input, hsend, rfl⟩ := Option.map_eq_some_iff.1 hs
      refine ⟨⟨hp, ⟨judged, hf.send? hopen hsend⟩, hidle, fun hn => ?_⟩, rfl⟩
      exact (Queue.hasReceiver_send? hsend).trans (hreceiver hn)
    | close => exact ⟨⟨hp, ⟨judged, hf.close⟩, hidle, hreceiver⟩, rfl⟩
    | receive hr =>
      obtain ⟨taken, htaken, rfl⟩ := Option.map_eq_some_iff.1 hr
      exact ⟨⟨hp, ⟨judged, hf.receive? htaken⟩, hidle, hreceiver⟩, rfl⟩
    | abandon => exact ⟨⟨hp, ⟨judged, hf.abandon⟩, hidle, hreceiver⟩, rfl⟩

/-- A filter that goes away stays where it is. -/
theorem Follows.stopFilter (h : l.Follows p calm reported served stopped) :
    l.stopFilter.Follows p calm reported served True ∧ l.stopFilter.filters = l.filters := by
  cases l with
  | direct q => exact ⟨h, rfl⟩
  | filtered f =>
    obtain ⟨hp, ⟨judged, hf⟩, hidle, -⟩ := h
    exact ⟨⟨hp, ⟨judged, hf.stop⟩, hidle, fun hn => absurd trivial hn⟩, rfl⟩

theorem follows_of_isNew (h : l.IsNew) : l.Follows l.predicate? calm [] served stopped := by
  cases l with
  | direct q => exact ⟨rfl, rfl⟩
  | filtered f =>
    obtain ⟨hmemory, hphase, hdone, hasked, hforwarded, hinput, houtput⟩ := h
    refine ⟨rfl, ⟨[], ?_⟩, fun _ => hphase, fun _ => by rw [hinput]; rfl⟩
    refine ⟨rfl, hasked, ⟨[], ?_, fun _ => rfl⟩, ?_, ?_, .inl ⟨hmemory, fun _ => ?_, ?_, ?_⟩, ?_⟩
    · rw [hinput, hphase]
      rfl
    · rw [houtput]
      exact List.nil_prefix
    · rw [hforwarded, houtput]
      rfl
    · rw [houtput, hphase]
      rfl
    · rw [hphase]
      rfl
    · exact fun hne => absurd rfl hne
    · intro _ hdone'
      rw [hdone] at hdone'
      cases hdone'

theorem isNew_start (p : Option (Predicate σ α)) (burst capacity : Nat) (taken : Bool) :
    (start p burst capacity taken).IsNew := by
  cases p with
  | none =>
    cases taken with
    | true => rfl
    | false => rfl
  | some p =>
    cases taken with
    | true => exact ⟨rfl, rfl, rfl, rfl, rfl, rfl, rfl⟩
    | false => exact ⟨rfl, rfl, rfl, rfl, rfl, rfl, rfl⟩

theorem isOpen_of_isNew (h : l.IsNew) : l.entrance.isOpen = true := by
  cases l with
  | direct q => exact h
  | filtered f =>
    show f.input.isOpen = true
    rw [h.input]
    rfl

theorem isOpen_send? {a : α} (hs : l.send? a = some l') :
    l'.entrance.isOpen = l.entrance.isOpen := by
  obtain ⟨q, hsend, rfl⟩ := Option.map_eq_some_iff.1 hs
  have hopen := Queue.isOpen_send? hsend
  cases l with
  | direct q' => exact hopen
  | filtered f => exact hopen

/-- What the predicate made of the items that arrived so far. -/
theorem Follows.refines {p : Predicate σ α}
    (h : l.Follows (some p) calm reported served stopped) : l.Refines p := by
  cases l with
  | direct q => cases h.1
  | filtered f =>
    obtain ⟨hp, ⟨judged, hf⟩, -⟩ := h
    obtain rfl := Option.some.inj hp
    exact {
      predicate := rfl
      delivered := hf.output_prefix
      asked := hf.asked_prefix
      failed := fun before a after hasked => f.predicate.asked_ends_with_failure
        (hf.asked.symm.trans hasked)
      forwarded := hf.forwarded }

/-- What it made of them in the end. -/
theorem Follows.finished {p : Predicate σ α} (h : l.Follows (some p) calm reported served stopped)
    (hcalm : calm) (hserved : ¬ served) (hdone : l.filters = false ∨ reported ≠ [])
    (hreceiver : l.exit.hasReceiver = true) :
    l.delivered = (p.filter l.arrived).accepted ∧
      reported = (p.filter l.arrived).failure.toList := by
  cases l with
  | direct q => cases h.1
  | filtered f =>
    obtain ⟨hp, ⟨judged, hf⟩, hidle, -⟩ := h
    obtain rfl := Option.some.inj hp
    refine hf.finished hcalm (hidle hserved) ?_ hreceiver
    rcases hdone with hdone | hreported
    · simpa [filters] using hdone
    · rcases hf.standing with hu | ⟨-, hover, -⟩
      · exact (hu.ended hreported).2
      · exact hover

theorem isOpen_receive? (hr : l.receive? = some l') :
    l'.entrance.isOpen = l.entrance.isOpen := by
  obtain ⟨taken, htaken, rfl⟩ := Option.map_eq_some_iff.1 hr
  cases l with
  | direct q =>
    simp only [exit, Queue.receive?] at htaken
    split at htaken
    · cases htaken
    · rw [← Option.some.inj htaken]
      rfl
  | filtered f => rfl

theorem isOpen_abandon (l : Lane σ α) : l.abandon.entrance.isOpen = l.entrance.isOpen := by
  cases l with
  | direct q => rfl
  | filtered f => rfl

theorem isOpen_stopFilter (l : Lane σ α) : l.stopFilter.entrance.isOpen = l.entrance.isOpen := by
  cases l with
  | direct q => rfl
  | filtered f => rfl

end Lane

namespace Filter

variable {σ α : Type} {p : Option (Predicate σ α)} {calm : Prop} {reported : List String}
  {f : Filter σ α} {turn : Turn σ α}

/-- After a step in its turn, the lane of a filter follows the predicate, and it takes as much as
before. -/
def Turn.Served (p : Option (Predicate σ α)) (calm : Prop) (reported : List String)
    (isOpen : Bool) : Turn σ α → Prop
  | .goesOn f => (Lane.filtered f).Follows p calm reported True False ∧ f.input.isOpen = isOpen
  | .over f => (Lane.filtered f).Follows p calm reported False False ∧ f.input.isOpen = isOpen
  | .failed message f =>
    (Lane.filtered f).Follows p calm (reported ++ [message]) False False ∧ f.input.isOpen = isOpen

theorem input_gathered (f : Filter σ α) (batch : List α) :
    (f.gathered batch).filter.input = f.input := by
  unfold gathered
  split
  · rfl
  · rfl

theorem input_conclude (f : Filter σ α) (failure : Option String) :
    (f.conclude failure).filter.input = f.input := by
  cases failure with
  | none => rfl
  | some message => rfl

/-- A filter only takes from its input. -/
theorem input_step? (hs : f.step? = some turn) :
    turn.filter.input.isOpen = f.input.isOpen ∧
      turn.filter.input.hasReceiver = f.input.hasReceiver := by
  unfold step? at hs
  split at hs
  · rw [← Option.some.inj hs]
    split
    · exact ⟨rfl, rfl⟩
    · exact ⟨rfl, rfl⟩
  · rw [← Option.some.inj hs]
    unfold gather Queue.receive?
    split
    · rw [input_gathered]
      exact ⟨rfl, rfl⟩
    rcases f.input.waiting with _ | ⟨a, more⟩
    · dsimp only
      split
      · rw [input_gathered]
        exact ⟨rfl, rfl⟩
      · rw [input_gathered]
        exact ⟨rfl, rfl⟩
    · exact ⟨rfl, rfl⟩
  · rw [← Option.some.inj hs]
    exact ⟨rfl, rfl⟩
  · rw [← Option.some.inj hs, input_conclude]
    exact ⟨rfl, rfl⟩
  · obtain ⟨f', hf, rfl⟩ := Option.map_eq_some_iff.1 hs
    obtain ⟨output, -, rfl⟩ := Option.map_eq_some_iff.1 hf
    exact ⟨rfl, rfl⟩

theorem input_breakOff? (hs : f.breakOff? = some turn) : turn.filter.input = f.input := by
  unfold breakOff? at hs
  split at hs
  · rw [← Option.some.inj hs]
    rfl
  · rw [← Option.some.inj hs, input_conclude]
  · cases hs

theorem Turn.Follows.served {predicate : Predicate σ α}
    (h : turn.Follows predicate calm reported) (hp : p = some predicate) {isOpen : Bool}
    (hopen : turn.filter.input.isOpen = isOpen)
    (hreceiver : turn.filter.input.hasReceiver = true) : turn.Served p calm reported isOpen := by
  subst hp
  match turn, h with
  | .goesOn f, h =>
    obtain ⟨judged, hf⟩ := h
    obtain rfl := hf.predicate
    exact ⟨⟨rfl, ⟨judged, hf⟩, fun hn => absurd trivial hn, fun _ => hreceiver⟩, hopen⟩
  | .over f, h =>
    obtain ⟨hphase, judged, hf⟩ := h
    obtain rfl := hf.predicate
    exact ⟨⟨rfl, ⟨judged, hf⟩, fun _ => hphase, fun _ => hreceiver⟩, hopen⟩
  | .failed message f, h =>
    obtain ⟨hphase, judged, hf⟩ := h
    obtain rfl := hf.predicate
    exact ⟨⟨rfl, ⟨judged, hf⟩, fun _ => hphase, fun _ => hreceiver⟩, hopen⟩

variable {served stopped : Prop}

theorem served_step? (h : (Lane.filtered f).Follows p calm reported served stopped)
    (hgoing : ¬ stopped) (hs : f.step? = some turn) :
    turn.Served p calm reported f.input.isOpen := by
  obtain ⟨hp, ⟨judged, hf⟩, -, hreceiver⟩ := h
  obtain ⟨hopen, hstays⟩ := input_step? hs
  exact (hf.step? (hreceiver hgoing) hs).served hp hopen (hstays.trans (hreceiver hgoing))

theorem served_breakOff? (h : (Lane.filtered f).Follows p calm reported served stopped)
    (hgoing : ¬ stopped) (hbroken : ¬ calm) (hs : f.breakOff? = some turn) :
    turn.Served p calm reported f.input.isOpen := by
  obtain ⟨hp, ⟨judged, hf⟩, -, hreceiver⟩ := h
  have hinput := input_breakOff? hs
  refine (hf.breakOff? hbroken hs).served hp ?_ ?_
  · rw [hinput]
  · rw [hinput]
    exact hreceiver hgoing

end Filter

end Pipeline

end Trawl
