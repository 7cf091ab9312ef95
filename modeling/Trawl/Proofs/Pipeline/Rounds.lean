import Trawl.Proofs.Pipeline.Draining

/-!
# Rounds of the dispatcher

The dispatcher can always go on once the caller has taken everything, and leaves less to do unless
it only goes on with its round (`Engine.exists_dispatch`). Where a turn has something to do, it
comes closer to that turn with each step that does nothing (`Engine.Idles.toServe_lt`).
-/

namespace Trawl.Pipeline

namespace Phase

variable {α : Type}

/-- How many steps a turn has to its end if there is nothing to do. -/
def toEnd : Phase α → Nat
  | .idle => 3
  | .gathering _ => 2
  | _ => 1

/-- How far the gathering of a batch lies ahead. Items that are passed on were gathered before, and
the next batch takes another round. -/
def toGather : Phase α → Nat
  | .idle => 3
  | .gathering _ => 2
  | _ => 8

end Phase

namespace Lane

variable {σ α : Type} {l l' : Lane σ α}

/-- How many steps the turn of a lane has to its end if there is nothing to do. -/
def toEnd : Lane σ α → Nat
  | .direct _ => 1
  | .filtered f => f.phase.toEnd

/-- How far the gathering of a batch lies ahead in the turn of a lane. -/
def toGather : Lane σ α → Nat
  | .direct _ => 3
  | .filtered f => f.phase.toGather

/-- Whether there is something for the next turn of the filter, if there is one. -/
def Needs : Lane σ α → Prop
  | .direct _ => False
  | .filtered f => f.Needs

/-- A turn ends in which nothing was done. -/
inductive Ends : Lane σ α → Lane σ α → Prop
  | direct {q : Queue α} : Ends (.direct q) (.direct q)
  | rests {f : Filter σ α} : f.phase = .idle → f.done = true → Ends (.filtered f) (.filtered f)
  | empty {f : Filter σ α} : f.phase = .gathering [] → ¬ f.Needs →
      Ends (.filtered f) (.filtered { f with phase := .idle })
  | passed {f : Filter σ α} : f.phase = .passing [] none →
      Ends (.filtered f) (.filtered { f with phase := .idle })

theorem Ends.filters (h : l.Ends l') : l'.filters = l.filters := by
  cases h with
  | direct => rfl
  | rests => rfl
  | empty => rfl
  | passed => rfl

theorem Ends.toPass_le (h : l.Ends l') : l'.toPass ≤ l.toPass := by
  cases h with
  | direct => exact Nat.le_refl _
  | rests => exact Nat.le_refl _
  | empty hphase => simp [toPass, Filter.toPass, hphase, Phase.toPass]
  | passed hphase => simp [toPass, Filter.toPass, hphase, Phase.toPass]

theorem Ends.toEnd_pos (h : l.Ends l') : 1 ≤ l.toEnd := by
  cases h with
  | direct => exact Nat.le_refl _
  | rests hphase => simp [toEnd, hphase, Phase.toEnd]
  | empty hphase => simp [toEnd, hphase, Phase.toEnd]
  | passed hphase => simp [toEnd, hphase, Phase.toEnd]

theorem toEnd_le (l : Lane σ α) : l.toEnd ≤ 3 := by
  cases l with
  | direct q => exact Nat.le_add_left ..
  | filtered f =>
    simp only [toEnd, Phase.toEnd]
    split <;> omega

end Lane

/-! ### Steps in which the dispatcher does nothing -/

namespace Engine

variable {σ τ : Type} {s : Session σ τ} {machine : Machine} {settings : Settings} {script : Script}
  {e e' : Engine σ τ}

/-- A step of the dispatcher that does nothing but go on with its round. -/
inductive Idles (e : Engine σ τ) : Engine σ τ → Prop
  | wait : e.dispatch = .waiting → Idles e { e with dispatch := .serving .packets }
  | beginPackets {f : Filter σ Frame} : e.dispatch = .serving .packets → e.packets = .filtered f →
      f.phase = .idle → Idles e { e with packets := .filtered { f with phase := .gathering [] } }
  | endPackets {packets : Lane σ Frame} : e.dispatch = .serving .packets → e.packets.Ends packets →
      Idles e { e with packets, dispatch := .serving .chunks }
  | beginChunks {f : Filter τ Content.Chunk} : e.dispatch = .serving .chunks →
      e.chunks = .filtered f → f.phase = .idle →
      Idles e { e with chunks := .filtered { f with phase := .gathering [] } }
  | endChunks {chunks : Lane τ Content.Chunk} : e.dispatch = .serving .chunks →
      e.chunks.Ends chunks → (e.packets.filters || chunks.filters) = true →
      Idles e { e with chunks, dispatch := .waiting }

theorem toStop_of_going {d : Dispatch} (h : d ≠ .stopped) : d.toStop = 1 := by
  cases d with
  | stopped => exact absurd rfl h
  | _ => rfl

theorem Idles.dispatch (h : e.Idles e') : e'.dispatch ≠ .stopped := by
  cases h with
  | wait => simp
  | beginPackets hd => simp [hd]
  | endPackets => simp
  | beginChunks hd => simp [hd]
  | endChunks => simp

theorem Idles.toDo_le (h : e.Idles e') :
    e'.toDo machine settings script ≤ e.toDo machine settings script := by
  cases h with
  | wait hd => simp [toDo, toPass, toCapture, Dispatch.toStop, hd]
  | beginPackets hd hl hphase =>
    simp [toDo, toPass, toCapture, hl, Lane.toPass, Filter.toPass, hphase, Phase.toPass]
  | endPackets hd hends =>
    have := hends.toPass_le
    simp only [toDo, toPass, toCapture, Dispatch.toStop, hd]
    omega
  | beginChunks hd hl hphase =>
    simp [toDo, toPass, toCapture, hl, Lane.toPass, Filter.toPass, hphase, Phase.toPass]
  | endChunks hd hends =>
    have := hends.toPass_le
    simp only [toDo, toPass, toCapture, Dispatch.toStop, hd]
    omega

theorem toDo_stopDispatch (e : Engine σ τ) :
    e.stopDispatch.toDo machine settings script ≤ e.toPass machine settings script := by
  have := e.packets.toPass_stopFilter
  have := e.chunks.toPass_stopFilter
  simp only [toDo, toPass, toCapture, stopDispatch, Dispatch.toStop]
  omega

theorem toDo_nextTurn (e : Engine σ τ) (output : Output) :
    (e.nextTurn output).toDo machine settings script ≤ e.toPass machine settings script + 1 := by
  cases output with
  | packets => exact Nat.le_refl _
  | chunks =>
    simp only [nextTurn]
    split
    · exact Nat.le_refl _
    · exact Nat.le_succ_of_le (toDo_stopDispatch e)

theorem toDo_of_going (hd : e.dispatch ≠ .stopped) :
    e.toDo machine settings script = e.toPass machine settings script + 1 := by
  rw [toDo, toStop_of_going hd]

/-- A step in a turn leaves less to do where it does so for the filter, whether the dispatcher goes
on after it or not. -/
theorem toDo_afterTurn {α ρ : Type} {output : Output} {set : Lane ρ α → Engine σ τ → Engine σ τ}
    {turn : Filter.Turn ρ α} (hd : e.dispatch ≠ .stopped)
    (hkept : (set (.filtered turn.filter) e).dispatch = e.dispatch)
    (hless : (set (.filtered turn.filter) e).toPass machine settings script
      < e.toPass machine settings script) :
    (e.afterTurn output set turn).toDo machine settings script
      < e.toDo machine settings script := by
  rw [toDo_of_going hd]
  rcases turn with f | f | ⟨message, f⟩
  · rw [show (e.afterTurn output set (.goesOn f)).toDo machine settings script = _ from
      toDo_of_going (hkept ▸ hd)]
    exact Nat.succ_lt_succ hless
  · exact Nat.lt_of_le_of_lt (toDo_nextTurn _ _) (Nat.succ_lt_succ hless)
  · exact Nat.lt_succ_of_lt (Nat.lt_of_le_of_lt (toDo_stopDispatch _) hless)

theorem setPackets_packets (e : Engine σ τ) : setPackets e.packets e = e := rfl

theorem setChunks_chunks (e : Engine σ τ) : setChunks e.chunks e = e := rfl

/-- What a step in the turn of a lane comes to, where the caller has taken everything. -/
theorem exists_turn? {α ρ : Type} (output : Output) {set : Lane ρ α → Engine σ τ → Engine σ τ}
    {l : Lane ρ α} (hset : set l e = e) {capacity burst : Nat} (hfits : l.Fits capacity burst)
    (hcapacity : 0 < capacity) (hburst : 0 < burst) (hw : l.exit.waiting = []) :
    ∃ e', e.turn? output Filter.step? set l = some e' ∧
      ((∃ f turn, l = .filtered f ∧ turn.filter.toPass < f.toPass ∧
          e' = e.afterTurn output set turn) ∨
        (∃ f, l = .filtered f ∧ f.phase = .idle ∧
          e' = set (.filtered { f with phase := .gathering [] }) e) ∨
        ∃ l', l.Ends l' ∧ e' = (set l' e).nextTurn output) := by
  cases l with
  | direct q =>
    refine ⟨_, rfl, .inr (.inr ⟨.direct q, .direct, ?_⟩)⟩
    rw [hset]
  | filtered f =>
    obtain ⟨-, houtput, hsize⟩ := hfits
    obtain ⟨turn, hs⟩ := Filter.exists_step? (f := f) (houtput ▸ hcapacity) hw
    simp only [turn?, hs, Option.map_some]
    refine ⟨_, rfl, ?_⟩
    cases Filter.steps_of_step? (hsize ▸ hburst) hs with
    | works hless => exact .inl ⟨f, turn, rfl, hless, rfl⟩
    | begins hphase => exact .inr (.inl ⟨f, rfl, hphase, rfl⟩)
    | rests hphase hdone => exact .inr (.inr ⟨_, .rests hphase hdone, rfl⟩)
    | empty hphase hneeds => exact .inr (.inr ⟨_, .empty hphase hneeds, rfl⟩)
    | passed hphase => exact .inr (.inr ⟨_, .passed hphase, rfl⟩)

/-- Where the last turn of a round ends with nothing done, the next round begins or the dispatcher
stops. -/
theorem idles_endChunks (hd : e.dispatch = .serving .chunks) {l : Lane τ Content.Chunk}
    (hends : e.chunks.Ends l) :
    ((setChunks l e).nextTurn .chunks).toDo machine settings script
      < e.toDo machine settings script ∨
      e.Idles ((setChunks l e).nextTurn .chunks) := by
  cases hfilters : e.packets.filters || l.filters with
  | true =>
    have heq : (setChunks l e).nextTurn .chunks = { e with chunks := l, dispatch := .waiting } := by
      simp only [nextTurn, setChunks, hfilters, if_true]
    rw [heq]
    exact .inr (.endChunks hd hends hfilters)
  | false =>
    have heq : (setChunks l e).nextTurn .chunks = (setChunks l e).stopDispatch := by
      simp only [nextTurn, setChunks, hfilters, Bool.false_eq_true, if_false]
    have hgoing : e.dispatch ≠ .stopped := by simp [hd]
    have hstop : (setChunks l e).stopDispatch.toDo machine settings script
        ≤ (setChunks l e).toPass machine settings script := toDo_stopDispatch _
    have hpass := hends.toPass_le
    have hsame : (setChunks l e).toPass machine settings script
        ≤ e.toPass machine settings script := by
      simp only [toPass, toCapture, setChunks]
      omega
    rw [heq, toDo_of_going hgoing]
    exact .inl (Nat.lt_succ_of_le (Nat.le_trans hstop hsame))

section Serve

variable (h : e.Undisturbed s script) (hcapacity : 0 < s.settings.queueCapacity)
  (hburst : 0 < s.settings.dispatchBurst)
include h hcapacity hburst

theorem exists_serve_packets (hd : e.dispatch = .serving .packets)
    (hw : e.packets.exit.waiting = []) : ∃ e', e.dispatch? = some e' ∧
      (e'.toDo s.machine s.settings script < e.toDo s.machine s.settings script ∨ e.Idles e') := by
  simp only [dispatch?, hd]
  obtain ⟨e', hs, hturn⟩ := exists_turn? .packets (setPackets_packets e) h.packets hcapacity
    hburst hw
  refine ⟨e', hs, ?_⟩
  rcases hturn with ⟨f, turn, hl, hless, rfl⟩ | ⟨f, hl, hphase, rfl⟩ | ⟨l, hends, rfl⟩
  · refine .inl (toDo_afterTurn (by simp [hd]) rfl ?_)
    simp only [toPass, toCapture, setPackets, hl, Lane.toPass]
    omega
  · exact .inr (.beginPackets hd hl hphase)
  · exact .inr (.endPackets hd hends)

theorem exists_serve_chunks (hd : e.dispatch = .serving .chunks)
    (hw : e.chunks.exit.waiting = []) : ∃ e', e.dispatch? = some e' ∧
      (e'.toDo s.machine s.settings script < e.toDo s.machine s.settings script ∨ e.Idles e') := by
  simp only [dispatch?, hd]
  obtain ⟨e', hs, hturn⟩ := exists_turn? .chunks (setChunks_chunks e) h.chunkLane hcapacity
    hburst hw
  refine ⟨e', hs, ?_⟩
  rcases hturn with ⟨f, turn, hl, hless, rfl⟩ | ⟨f, hl, hphase, rfl⟩ | ⟨l, hends, rfl⟩
  · refine .inl (toDo_afterTurn (by simp [hd]) rfl ?_)
    simp only [toPass, toCapture, setChunks, hl, Lane.toPass]
    omega
  · exact .inr (.beginChunks hd hl hphase)
  · exact idles_endChunks hd hends

/-- Where the caller has taken everything, the dispatcher can go on. -/
theorem exists_dispatch (hd : e.dispatch ≠ .stopped) (hp : e.packets.exit.waiting = [])
    (hc : e.chunks.exit.waiting = []) : ∃ e', e.dispatch? = some e' ∧
      (e'.toDo s.machine s.settings script < e.toDo s.machine s.settings script ∨ e.Idles e') := by
  cases hd' : e.dispatch with
  | waiting =>
    refine ⟨_, ?_, .inr (.wait hd')⟩
    simp only [dispatch?, hd']
  | serving output =>
    cases output with
    | packets => exact exists_serve_packets h hcapacity hburst hd' hp
    | chunks => exact exists_serve_chunks h hcapacity hburst hd' hc
  | stopped => exact absurd hd' hd

end Serve

end Engine

/-! ### Turns that have something to do -/

namespace Lane

variable {σ α : Type} {p : Option (Predicate σ α)} {served stopped : Prop} {l l' : Lane σ α}

/-- A filter that is done needs nothing. -/
theorem Follows.not_needs {f : Filter σ α}
    (h : (Lane.filtered f).Follows p True [] served stopped) (hphase : f.phase = .idle)
    (hdone : f.done = true) : ¬ f.Needs := by
  obtain ⟨-, ⟨judged, hf⟩, -⟩ := h
  have hnone : (f.predicate.verdict judged).filtered.failure = none := by
    rcases hf.standing with hu | ⟨-, -, hn⟩
    · have := hu.failure
      rw [hphase] at this
      exact Option.toList_eq_nil_iff.1 this
    · exact absurd trivial hn
  obtain ⟨-, hw, -⟩ := hf.drained trivial hdone hnone
  rintro (hne | ⟨-, hgoing⟩)
  · exact hne hw
  · cases hdone.symm.trans hgoing

/-- Before its turn, a lane has all of it ahead. -/
theorem Follows.toGather {calm : Prop} {reported : List String}
    (h : l.Follows p calm reported served stopped) (hserved : ¬ served) : l.toGather = 3 := by
  cases l with
  | direct q => rfl
  | filtered f =>
    obtain ⟨-, -, hidle, -⟩ := h
    simp only [Lane.toGather, hidle hserved, Phase.toGather]

theorem Ends.needs (h : l.Ends l') (hneeds : l.Needs) : l'.Needs := by
  cases h with
  | direct => exact hneeds
  | rests => exact hneeds
  | empty => exact hneeds
  | passed => exact hneeds

/-- A turn ends with something left for the filter only if it was busy with items from before. -/
theorem Ends.toGather_of_needs (h : l.Ends l') (hfollows : l.Follows p True [] served stopped)
    (hneeds : l.Needs) : l.toGather = 8 := by
  cases h with
  | direct => exact hneeds.elim
  | rests hphase hdone => exact absurd hneeds (hfollows.not_needs hphase hdone)
  | empty _ hnot => exact absurd hneeds hnot
  | passed hphase => simp only [Lane.toGather, hphase, Phase.toGather]

end Lane

namespace Engine

variable {σ τ : Type} {s : Session σ τ} {script : Script} {e e' : Engine σ τ}

/-- Whether the next turn of an output has something to do: for its filter, or for the dispatcher,
which stops after it. -/
def Needs (e : Engine σ τ) : Output → Prop
  | .packets => e.packets.Needs
  | .chunks => e.chunks.Needs ∨ e.packets.filters = false ∧ e.chunks.filters = false

/-- How many steps of the dispatcher lie ahead of that turn, if they have nothing to do. -/
def toServe (e : Engine σ τ) : Output → Nat
  | .packets =>
    match e.dispatch with
    | .waiting => 4
    | .serving .packets => e.packets.toGather
    | .serving .chunks => 4 + e.chunks.toEnd
    | .stopped => 0
  | .chunks =>
    match e.dispatch with
    | .waiting => 7
    | .serving .packets => 3 + e.packets.toEnd
    | .serving .chunks => e.chunks.toGather
    | .stopped => 0

theorem Idles.needs (h : e.Idles e') {output : Output} (hneeds : e.Needs output) :
    e'.Needs output := by
  cases h with
  | wait => cases output <;> exact hneeds
  | beginPackets hd hl hphase =>
    cases output with
    | packets =>
      rw [Needs, hl] at hneeds
      exact hneeds
    | chunks =>
      rw [Needs, hl] at hneeds
      exact hneeds
  | endPackets hd hends =>
    cases output with
    | packets => exact hends.needs hneeds
    | chunks => exact hneeds.imp id fun hdone => ⟨hends.filters.trans hdone.1, hdone.2⟩
  | beginChunks hd hl hphase =>
    cases output with
    | packets => exact hneeds
    | chunks =>
      rw [Needs, hl] at hneeds
      exact hneeds
  | endChunks hd hends =>
    cases output with
    | packets => exact hneeds
    | chunks => exact hneeds.imp hends.needs fun hdone => ⟨hdone.1, hends.filters.trans hdone.2⟩

/-- The dispatcher does not go round without coming closer to a turn that has something to do. -/
theorem Idles.toServe_lt (h : e.Undisturbed s script) (hgoing : e.dispatch ≠ .stopped)
    (hidles : e.Idles e') {output : Output} (hneeds : e.Needs output) :
    e'.toServe output < e.toServe output := by
  have hpackets := h.filters.packets
  have hchunks := h.filters.chunks
  rw [h.unfailing hgoing] at hpackets hchunks
  cases hidles with
  | wait hd =>
    have hgather := hpackets.toGather (by simp [hd])
    have hend := e.packets.toEnd_le
    cases output with
    | packets =>
      simp only [toServe, hd, hgather]
      omega
    | chunks =>
      simp only [toServe, hd]
      omega
  | beginPackets hd hl hphase =>
    cases output with
    | packets => simp [toServe, hd, hl, Lane.toGather, hphase, Phase.toGather]
    | chunks => simp [toServe, hd, hl, Lane.toEnd, hphase, Phase.toEnd]
  | endPackets hd hends =>
    cases output with
    | packets =>
      have hgather := hends.toGather_of_needs hpackets hneeds
      have hend := e.chunks.toEnd_le
      simp only [toServe, hd, hgather]
      omega
    | chunks =>
      have hgather := hchunks.toGather (by simp [hd])
      have hend := hends.toEnd_pos
      simp only [toServe, hd, hgather]
      omega
  | beginChunks hd hl hphase =>
    cases output with
    | packets => simp [toServe, hd, hl, Lane.toEnd, hphase, Phase.toEnd]
    | chunks => simp [toServe, hd, hl, Lane.toGather, hphase, Phase.toGather]
  | endChunks hd hends hfilters =>
    cases output with
    | packets =>
      have hend := hends.toEnd_pos
      simp only [toServe, hd]
      omega
    | chunks =>
      rcases hneeds with hneeds | ⟨hpacketsDone, hchunksDone⟩
      · have hgather := hends.toGather_of_needs hchunks hneeds
        simp only [toServe, hd, hgather]
        omega
      · simp [hpacketsDone, hends.filters, hchunksDone] at hfilters

end Engine

end Trawl.Pipeline
