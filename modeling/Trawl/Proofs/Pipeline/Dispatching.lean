import Trawl.Proofs.Pipeline.Lanes
import Trawl.Proofs.Pipeline.Steps

/-!
# Steps of the dispatcher

What the dispatcher does to a session: it serves the filters, and leaves the reader and the capture
alone. Only when a predicate fails does it report something, and it stops with that
(`Engine.DispatchStep`). A lane keeps its sizes, what arrived there and who takes from it
(`Lane.Kept`), and after the dispatcher has stopped nothing waits for a filter (`Lane.IsDeserted`).
-/

namespace Trawl.Pipeline

namespace Lane

variable {σ α : Type} {l l' : Lane σ α}

/-- The sizes of a lane: how much its queues hold and how large the batches of its filter are. -/
def Fits (capacity burst : Nat) : Lane σ α → Prop
  | .direct q => q.capacity = capacity
  | .filtered f => f.input.capacity = capacity ∧ f.output.capacity = capacity ∧ f.burst = burst

/-- What the steps of its filter leave as it is in a lane. -/
structure Kept (l l' : Lane σ α) : Prop where
  arrived : l'.arrived = l.arrived
  isOpen : l'.entrance.isOpen = l.entrance.isOpen
  entrance : l.entrance.hasReceiver = false → l'.entrance.hasReceiver = false
  exit : l'.exit.hasReceiver = l.exit.hasReceiver
  delivered : l.exit.hasReceiver = false → l'.delivered = l.delivered
  fits : ∀ {capacity burst : Nat}, l.Fits capacity burst → l'.Fits capacity burst

/-- The filter of a lane, if there is one, takes no more, and nothing waits for it. -/
def IsDeserted : Lane σ α → Prop
  | .direct _ => True
  | .filtered f => f.input.hasReceiver = false ∧ f.input.waiting = []

theorem Kept.refl (l : Lane σ α) : l.Kept l :=
  ⟨rfl, rfl, id, rfl, fun _ => rfl, id⟩

theorem Kept.stopFilter (h : l.Kept l') : l.Kept l'.stopFilter := by
  cases l' with
  | direct q => exact h
  | filtered f => exact ⟨h.arrived, h.isOpen, fun _ => rfl, h.exit, h.delivered, h.fits⟩

theorem isDeserted_stopFilter (l : Lane σ α) : l.stopFilter.IsDeserted := by
  cases l with
  | direct q => exact trivial
  | filtered f => exact ⟨rfl, rfl⟩

end Lane

namespace Filter

variable {σ α : Type} {f : Filter σ α} {turn : Turn σ α}

theorem kept_gathered (f : Filter σ α) (batch : List α) :
    (Lane.filtered f).Kept (.filtered (f.gathered batch).filter) := by
  unfold gathered
  split
  · exact ⟨rfl, rfl, id, rfl, fun _ => rfl, id⟩
  · exact ⟨rfl, rfl, id, rfl, fun _ => rfl, id⟩

theorem kept_conclude (f : Filter σ α) (failure : Option String) :
    (Lane.filtered f).Kept (.filtered (f.conclude failure).filter) := by
  cases failure with
  | none => exact ⟨rfl, rfl, id, rfl, fun _ => rfl, id⟩
  | some message => exact ⟨rfl, rfl, id, rfl, fun _ => rfl, id⟩

theorem kept_step? (hs : f.step? = some turn) :
    (Lane.filtered f).Kept (.filtered turn.filter) := by
  unfold step? at hs
  split at hs
  · rw [← Option.some.inj hs]
    split
    · exact .refl _
    · exact ⟨rfl, rfl, id, rfl, fun _ => rfl, id⟩
  · rename_i batch hphase
    rw [← Option.some.inj hs]
    unfold gather Queue.receive?
    split
    · exact kept_gathered f batch
    rcases f.input.waiting with _ | ⟨a, more⟩
    · dsimp only
      split
      · exact kept_gathered f batch
      · have h := kept_gathered { f with done := true } batch
        exact ⟨h.arrived, h.isOpen, h.entrance, h.exit, h.delivered, h.fits⟩
    · exact ⟨rfl, rfl, id, rfl, fun _ => rfl, id⟩
  · rw [← Option.some.inj hs]
    exact ⟨rfl, rfl, id, rfl, fun _ => rfl, id⟩
  · rw [← Option.some.inj hs]
    exact kept_conclude f _
  · obtain ⟨f', hf, rfl⟩ := Option.map_eq_some_iff.1 hs
    obtain ⟨output, hsend, rfl⟩ := Option.map_eq_some_iff.1 hf
    have hreceiver := Queue.hasReceiver_send? hsend
    rcases Queue.send?_cases hsend with ⟨-, rfl⟩ | ⟨hsome, rfl⟩
    · exact ⟨rfl, rfl, id, hreceiver, fun _ => rfl, id⟩
    · exact ⟨rfl, rfl, id, hreceiver, fun hnone => absurd (hsome.symm.trans hnone) (by decide), id⟩

theorem kept_breakOff? (hs : f.breakOff? = some turn) :
    (Lane.filtered f).Kept (.filtered turn.filter) := by
  unfold breakOff? at hs
  split at hs
  · rw [← Option.some.inj hs]
    exact ⟨rfl, rfl, id, rfl, fun _ => rfl, id⟩
  · rename_i failure hphase
    rw [← Option.some.inj hs]
    have h := kept_conclude { f with done := true } failure
    exact ⟨h.arrived, h.isOpen, h.entrance, h.exit, h.delivered, h.fits⟩
  · cases hs

end Filter

namespace Engine

variable {σ τ : Type} {e e' : Engine σ τ}

/-- A step of the dispatcher. -/
inductive DispatchStep (e : Engine σ τ) : Engine σ τ → Prop
  | goesOn {packets : Lane σ Frame} {chunks : Lane τ Content.Chunk} {dispatch : Dispatch} :
      e.dispatch ≠ .stopped → e.packets.Kept packets → e.chunks.Kept chunks →
      (dispatch = .stopped → packets.IsDeserted ∧ chunks.IsDeserted) →
      DispatchStep e { e with packets, chunks, dispatch }
  | fails {packets : Lane σ Frame} {chunks : Lane τ Content.Chunk} {output : Output}
      {message : String} : e.dispatch ≠ .stopped → e.packets.Kept packets → e.chunks.Kept chunks →
      packets.IsDeserted ∧ chunks.IsDeserted →
      DispatchStep e { e.report (.predicate output message) with
        packets, chunks
        dispatch := .stopped
        isCancelled :=
          e.isCancelled || e.settings.onPredicateFailure = FailurePolicy.stopCapture }

section Turns

variable (hd : e.dispatch ≠ .stopped) {packets : Lane σ Frame} {chunks : Lane τ Content.Chunk}
include hd

theorem dispatchStep_stopDispatch (hp : e.packets.Kept packets) (hc : e.chunks.Kept chunks) :
    e.DispatchStep (stopDispatch { e with packets, chunks }) :=
  .goesOn hd hp.stopFilter hc.stopFilter fun _ =>
    ⟨packets.isDeserted_stopFilter, chunks.isDeserted_stopFilter⟩

theorem dispatchStep_nextTurn (hp : e.packets.Kept packets) (hc : e.chunks.Kept chunks)
    (output : Output) : e.DispatchStep (nextTurn { e with packets, chunks } output) := by
  cases output with
  | packets => exact .goesOn hd hp hc fun hs => by cases hs
  | chunks =>
    simp only [nextTurn]
    split
    · exact .goesOn hd hp hc fun hs => by cases hs
    · exact dispatchStep_stopDispatch hd hp hc

theorem dispatchStep_afterTurn_packets {turn : Filter.Turn σ Frame}
    (hk : e.packets.Kept (.filtered turn.filter)) :
    e.DispatchStep (e.afterTurn .packets setPackets turn) := by
  match turn, hk with
  | .goesOn f, hk => exact .goesOn hd hk (.refl _) fun hs => absurd hs hd
  | .over f, hk => exact dispatchStep_nextTurn hd hk (.refl _) .packets
  | .failed message f, hk =>
    exact .fails hd hk.stopFilter (Lane.Kept.refl _).stopFilter
      ⟨Lane.isDeserted_stopFilter _, Lane.isDeserted_stopFilter _⟩

theorem dispatchStep_afterTurn_chunks {turn : Filter.Turn τ Content.Chunk}
    (hk : e.chunks.Kept (.filtered turn.filter)) :
    e.DispatchStep (e.afterTurn .chunks setChunks turn) := by
  match turn, hk with
  | .goesOn f, hk => exact .goesOn hd (.refl _) hk fun hs => absurd hs hd
  | .over f, hk => exact dispatchStep_nextTurn hd (.refl _) hk .chunks
  | .failed message f, hk =>
    exact .fails hd (Lane.Kept.refl _).stopFilter hk.stopFilter
      ⟨Lane.isDeserted_stopFilter _, Lane.isDeserted_stopFilter _⟩

end Turns

theorem dispatchStep_of_dispatch? (h : e.dispatch? = some e') : e.DispatchStep e' := by
  unfold dispatch? at h
  split at h
  · rename_i hd
    exact Option.some.inj h ▸ .goesOn (by simp [hd]) (.refl _) (.refl _) fun hs => by cases hs
  · rename_i hd
    have hgoing : e.dispatch ≠ .stopped := by simp [hd]
    unfold turn? at h
    split at h
    · exact Option.some.inj h ▸ dispatchStep_nextTurn hgoing (.refl _) (.refl _) .packets
    · rename_i f hl
      obtain ⟨turn, hs, rfl⟩ := Option.map_eq_some_iff.1 h
      exact dispatchStep_afterTurn_packets hgoing (hl ▸ Filter.kept_step? hs)
  · rename_i hd
    have hgoing : e.dispatch ≠ .stopped := by simp [hd]
    unfold turn? at h
    split at h
    · exact Option.some.inj h ▸ dispatchStep_nextTurn hgoing (.refl _) (.refl _) .chunks
    · rename_i f hl
      obtain ⟨turn, hs, rfl⟩ := Option.map_eq_some_iff.1 h
      exact dispatchStep_afterTurn_chunks hgoing (hl ▸ Filter.kept_step? hs)
  · cases h

theorem dispatchStep_of_stopDispatch? (h : e.stopDispatch? = some e') : e.DispatchStep e' := by
  unfold stopDispatch? at h
  split at h
  · cases h
  split at h
  · rename_i hd
    exact Option.some.inj h ▸ dispatchStep_stopDispatch (by simp [hd]) (.refl _) (.refl _)
  · rename_i hd hl
    obtain ⟨turn, hs, rfl⟩ := Option.map_eq_some_iff.1 h
    exact dispatchStep_afterTurn_packets (by simp [hd]) (hl ▸ Filter.kept_breakOff? hs)
  · rename_i hd hl
    obtain ⟨turn, hs, rfl⟩ := Option.map_eq_some_iff.1 h
    exact dispatchStep_afterTurn_chunks (by simp [hd]) (hl ▸ Filter.kept_breakOff? hs)
  · cases h

end Engine

end Trawl.Pipeline
