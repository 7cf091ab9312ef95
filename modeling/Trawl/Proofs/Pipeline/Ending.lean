import Trawl.Proofs.Pipeline.Rounds

/-!
# The end of a session with filters

Where the reader, the capture and the caller have to wait before a session is over, there is a turn
that has something to do (`Engine.Undisturbed.needs_of_waits`), and the dispatcher comes to it
(`Engine.Undisturbed.served`). So a session that nobody disturbs can come to its end from everywhere
(`Engine.Undisturbed.comes_to_end`).
-/

namespace Trawl.Pipeline

/-! ### Where everybody else has to wait -/

/-- A sender has to wait only where there is a receiver and no room. -/
theorem Queue.full_of_send? {α : Type} {q : Queue α} {a : α} (h : q.send? a = none) :
    q.hasReceiver = true ∧ q.hasRoom = false := by
  unfold send? at h
  split at h
  · cases h
  · rename_i hreceiver
    split at h
    · cases h
    · rename_i hroom
      exact ⟨by simpa using hreceiver, by simpa using hroom⟩

/-- A lane that has no room, from which the caller has taken everything, is one with a filter that
needs to be served. -/
theorem Lane.Fits.needs_of_full {σ α : Type} {capacity burst : Nat} {l : Lane σ α}
    (h : l.Fits capacity burst) (hcapacity : 0 < capacity) (hw : l.exit.waiting = []) {a : α}
    (hfull : l.send? a = none) : l.Needs ∧ ¬ l.IsDeserted := by
  obtain ⟨hreceiver, hroom⟩ := Queue.full_of_send? (Option.map_eq_none_iff.1 hfull)
  cases l with
  | direct q =>
    obtain rfl : q.capacity = capacity := h
    simp only [Lane.exit] at hw
    simp only [entrance, Queue.hasRoom, hw, List.length_nil, decide_eq_false_iff_not] at hroom
    exact absurd hcapacity hroom
  | filtered f =>
    obtain ⟨rfl, -⟩ := h
    refine ⟨.inl fun hempty => ?_, fun hdeserted => ?_⟩
    · simp only [entrance, Queue.hasRoom, hempty, List.length_nil, decide_eq_false_iff_not] at hroom
      exact hroom hcapacity
    · cases hreceiver.symm.trans hdeserted.1

/-- A filter at work whose input has ended needs to be served. -/
theorem Lane.needs_of_closed {σ α : Type} {l : Lane σ α} (hfilters : l.filters = true)
    (hclosed : l.entrance.isOpen = false) : l.Needs := by
  cases l with
  | direct q => simp [filters] at hfilters
  | filtered f => exact .inr ⟨hclosed, by simpa [filters] using hfilters⟩

namespace Engine

variable {σ τ : Type} {s : Session σ τ} {script : Script} {e e' : Engine σ τ}

section Waits

variable (h : e.Undisturbed s script) (hcapacity : 0 < s.settings.queueCapacity)
  (hpackets : e.packets.exit.waiting = []) (hchunks : e.chunks.exit.waiting = [])
include h hcapacity hpackets hchunks

/-- Where the capture has to wait for room, a filter needs to be served. -/
theorem Undisturbed.needs_of_work? {more : List Task} : ∀ {task : Task},
    e.work? more task = none → e.dispatch ≠ .stopped ∧ ∃ output, e.Needs output
  | .classify stream, hwork => by cases hwork
  | .sendChunk chunk, hwork => by
    have hfull := Option.map_eq_none_iff.1 hwork
    obtain ⟨hneeds, hnot⟩ := h.chunkLane.needs_of_full hcapacity hchunks hfull
    exact ⟨fun hs => hnot (h.deserted hs).2, .chunks, .inl hneeds⟩
  | .sendFrame frame, hwork => by
    have hfull := Option.map_eq_none_iff.1 hwork
    obtain ⟨hneeds, hnot⟩ := h.packets.needs_of_full hcapacity hpackets hfull
    exact ⟨fun hs => hnot (h.deserted hs).1, .packets, hneeds⟩

/-- Where the reader, the capture and the caller have to wait before the session is over, the
dispatcher has something to do. -/
theorem Undisturbed.needs_of_waits (hover : e.isOver = false) (hread : e.read? = none)
    (hcapture : e.capture? = none) : e.dispatch ≠ .stopped ∧ ∃ output, e.Needs output := by
  rcases htasks : e.tasks with _ | ⟨task, more⟩
  · by_cases hprogress : e.progress = .stopped
    · have hgoing : e.dispatch ≠ .stopped := fun hs => by
        simp [isOver, h.stopped hprogress, hprogress, hs, hpackets, hchunks] at hover
      obtain ⟨hpacketsClosed, hchunksClosed⟩ := h.closed hprogress
      refine ⟨hgoing, ?_⟩
      -- both inputs have ended: a filter has to notice that, or the dispatcher that both have
      cases hp : e.packets.filters with
      | true => exact ⟨.packets, Lane.needs_of_closed hp hpacketsClosed⟩
      | false =>
        cases hc : e.chunks.filters with
        | true => exact ⟨.chunks, .inl (Lane.needs_of_closed hc hchunksClosed)⟩
        | false => exact ⟨.chunks, .inr ⟨hp, hc⟩⟩
    · rcases h.goes_on_between (h.source ▸ hcapacity) htasks hprogress with hr | hc
      · simp [hread] at hr
      · simp [hcapture] at hc
  · have hwork : e.work? more task = none := by simpa only [capture?, htasks] using hcapture
    exact h.needs_of_work? hcapacity hpackets hchunks hwork

end Waits

end Engine

/-! ### To the end -/

/-- Whether an action is a step of the reader, the capture or the dispatcher, or of a caller that
takes an item. -/
def Action.isOwn : Action → Bool
  | .read => true
  | .capture => true
  | .dispatch => true
  | .receive _ => true
  | _ => false

namespace Engine

variable {σ τ : Type} {s : Session σ τ} {script : Script} {e e' between : Engine σ τ}

/-- A session can come to some point if nobody disturbs it. -/
def Leads (e e' : Engine σ τ) : Prop :=
  ∃ actions, (∀ a ∈ actions, a.isOwn = true) ∧ e.run? actions = some e'

theorem permits_of_isOwn (e : Engine σ τ) {a : Action} (hown : a.isOwn = true) :
    e.permits a = true := by
  cases a with
  | sweep cutoff => cases hown
  | abandon output => cases hown
  | cancel => cases hown
  | _ => rfl

theorem isCalm_of_isOwn : ∀ {actions : List Action} (e : Engine σ τ),
    (∀ a ∈ actions, a.isOwn = true) → e.isCalm actions = true
  | [], _, _ => rfl
  | a :: actions, e, hown => by
    simp only [isCalm, e.permits_of_isOwn (hown a List.mem_cons_self), Bool.true_and,
      Option.all_eq_true]
    exact fun e' _ => isCalm_of_isOwn e' fun b hb => hown b (List.mem_cons_of_mem a hb)

theorem Leads.refl (e : Engine σ τ) : e.Leads e :=
  ⟨[], by simp, rfl⟩

theorem Leads.step {a : Action} (hown : a.isOwn = true) (hs : e.step? a = some e') : e.Leads e' :=
  ⟨[a], by simpa using hown, by simp [run?, hs]⟩

theorem Leads.trans (h : e.Leads between) (hlater : between.Leads e') : e.Leads e' := by
  obtain ⟨before, hbefore, hb⟩ := h
  obtain ⟨later, hlater, hl⟩ := hlater
  refine ⟨before ++ later, fun a ha => ?_, ?_⟩
  · exact (List.mem_append.1 ha).elim (hbefore a) (hlater a)
  · rw [run?_append, hb]
    exact hl

theorem Undisturbed.leads (h : e.Undisturbed s script) (hendures : s.Endures script)
    (hleads : e.Leads e') : e'.Undisturbed s script := by
  obtain ⟨actions, hown, hrun⟩ := hleads
  exact h.run hendures hrun (isCalm_of_isOwn e hown)

/-- The caller leaves less to do when it takes an item. -/
theorem exists_receive (script : Script) (settings : Settings)
    (hwaiting : ¬ (e.packets.exit.waiting = [] ∧ e.chunks.exit.waiting = [])) :
    ∃ e', e.Leads e' ∧ e'.toDo machine settings script < e.toDo machine settings script := by
  by_cases hpackets : e.packets.exit.waiting = []
  · have hchunks : e.chunks.exit.waiting ≠ [] := fun hc => hwaiting ⟨hpackets, hc⟩
    obtain ⟨chunks, hr⟩ := Lane.exists_receive? hchunks
    refine ⟨{ e with chunks }, .step (a := .receive .chunks) rfl ?_, ?_⟩
    · simp only [step?, hr, Option.map_some]
    · have := Lane.toPass_receive? hr
      simp only [toDo, toPass, toCapture]
      omega
  · obtain ⟨packets, hr⟩ := Lane.exists_receive? hpackets
    refine ⟨{ e with packets }, .step (a := .receive .packets) rfl ?_, ?_⟩
    · simp only [step?, hr, Option.map_some]
    · have := Lane.toPass_receive? hr
      simp only [toDo, toPass, toCapture]
      omega

section Ends

variable (hendures : s.Endures script) (hcapacity : 0 < s.settings.queueCapacity)
  (hburst : 0 < s.settings.dispatchBurst)
include hendures hcapacity hburst

/-- Where a turn has something to do, the dispatcher and the caller come to it. -/
theorem Undisturbed.served {output : Output} {e : Engine σ τ} (h : e.Undisturbed s script)
    (hgoing : e.dispatch ≠ .stopped) (hneeds : e.Needs output) :
    ∃ e', e.Leads e' ∧
      e'.toDo s.machine s.settings script < e.toDo s.machine s.settings script := by
  by_cases hwaiting : e.packets.exit.waiting = [] ∧ e.chunks.exit.waiting = []
  · obtain ⟨e', hs, hless | hidles⟩ :=
      exists_dispatch h hcapacity hburst hgoing hwaiting.1 hwaiting.2
    · exact ⟨e', .step (a := .dispatch) rfl hs, hless⟩
    · -- nothing was done, but the turn that has something to do has come nearer
      have hleads : e.Leads e' := .step (a := .dispatch) rfl hs
      have hnear := hidles.toServe_lt h hgoing hneeds
      obtain ⟨e₂, hmore, hless⟩ :=
        (h.leads hendures hleads).served hidles.dispatch (hidles.needs hneeds)
      exact ⟨e₂, hleads.trans hmore, Nat.lt_of_lt_of_le hless hidles.toDo_le⟩
  · exact exists_receive script s.settings hwaiting
termination_by e.toServe output

/-- As long as a session is not over, there is less to do after some steps. -/
theorem Undisturbed.goes_on (h : e.Undisturbed s script) (hover : e.isOver = false) :
    ∃ e', e.Leads e' ∧
      e'.toDo s.machine s.settings script < e.toDo s.machine s.settings script := by
  by_cases hwaiting : e.packets.exit.waiting = [] ∧ e.chunks.exit.waiting = []
  · cases hread : e.read? with
    | some e' => exact ⟨e', .step (a := .read) rfl hread, h.toDo_read hread⟩
    | none =>
      cases hcapture : e.capture? with
      | some e' => exact ⟨e', .step (a := .capture) rfl hcapture, h.toDo_capture hcapture⟩
      | none =>
        obtain ⟨hgoing, output, hneeds⟩ :=
          h.needs_of_waits hcapacity hwaiting.1 hwaiting.2 hover hread hcapture
        exact h.served hendures hcapacity hburst hgoing hneeds
  · exact exists_receive script s.settings hwaiting

/-- A session that nobody disturbs can come to its end from everywhere. -/
theorem Undisturbed.comes_to_end {e : Engine σ τ} (h : e.Undisturbed s script) :
    ∃ e', e.Leads e' ∧ e'.isOver = true := by
  cases hover : e.isOver with
  | true => exact ⟨e, .refl e, hover⟩
  | false =>
    obtain ⟨e₁, hleads, hless⟩ := h.goes_on hendures hcapacity hburst hover
    obtain ⟨e₂, hmore, hends⟩ := (h.leads hendures hleads).comes_to_end
    exact ⟨e₂, hleads.trans hmore, hends⟩
termination_by e.toDo s.machine s.settings script

end Ends

end Engine

end Trawl.Pipeline
