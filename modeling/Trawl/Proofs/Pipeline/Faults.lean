import Trawl.Proofs.Pipeline.Delivery
import Trawl.Proofs.Pipeline.Dispatching

/-!
# The faults that the caller hears of

The queue of faults holds a single one, but it is free again once the caller has taken that. So the
caller can hear of two faults, of the source and of a predicate, whatever it is that comes first. It
hears of the first that was reported, and of a second one exactly when that is reported after the
first has been taken (`Engine.faults_received`).
-/

namespace Trawl

/-- Whether it is the source that is at fault. -/
def SessionFault.isOfSource : SessionFault → Bool
  | .source _ => true
  | _ => false

namespace Pipeline

namespace Engine

variable {σ τ : Type} {e e' : Engine σ τ}

/-- What the capture has not taken from the reader yet. -/
def pending (e : Engine σ τ) : List (Except SourceFault Record) :=
  e.source.waiting ++ e.script.items e.settings

/-- A session does not go back: no fault of the source turns up, and neither the capture nor the
dispatcher begins again. -/
structure Onward (e e' : Engine σ τ) : Prop where
  pending : ∀ fault, .error fault ∈ e'.pending → .error fault ∈ e.pending
  progress : e.progress ≠ .capturing → e'.progress ≠ .capturing
  dispatch : e.dispatch = .stopped → e'.dispatch = .stopped

/-- What a step does to the faults. -/
inductive FaultStep (e e' : Engine σ τ) : Prop
  | quiet : e'.faults = e.faults → e'.reported = e.reported → FaultStep e e'
  | source {fault : SourceFault} : e'.faults = e.faults.offer (.source fault) →
      e'.reported = e.reported ++ [.source fault] → .error fault ∈ e.pending →
      e.progress = .capturing → e'.progress ≠ .capturing → FaultStep e e'
  | predicate {output : Output} {message : String} :
      e'.faults = e.faults.offer (.predicate output message) →
      e'.reported = e.reported ++ [.predicate output message] →
      e.dispatch ≠ .stopped → e'.dispatch = .stopped → FaultStep e e'
  | receive {fault : SessionFault} {waiting : List SessionFault} :
      e.faults.waiting = fault :: waiting → e'.faults = { e.faults with waiting } →
      e'.reported = e.reported → FaultStep e e'

theorem pending_cons {item : Except SourceFault Record} {waiting : List (Except SourceFault Record)}
    (hw : e.source.waiting = item :: waiting) :
    e.pending = item :: (waiting ++ e.script.items e.settings) := by
  rw [pending, hw, List.cons_append]

theorem faultStep_of_read? (h : e.read? = some e') : e.Onward e' ∧ e.FaultStep e' := by
  cases (readStep_of_read? h).2 with
  | pause hsize hitems =>
    refine ⟨⟨fun fault hf => ?_, id, id⟩, .quiet rfl rfl⟩
    rw [pending, hitems]
    exact hf
  | hand hsize hitems =>
    refine ⟨⟨fun fault hf => ?_, id, id⟩, .quiet rfl rfl⟩
    rw [pending, hitems]
    simpa [pending, Queue.put] using hf
  | drop hitems hreceiver =>
    refine ⟨⟨fun fault hf => ?_, id, id⟩, .quiet rfl rfl⟩
    rw [pending, hitems]
    rcases List.mem_append.1 hf with hf | hf
    · exact List.mem_append_left _ hf
    · exact List.mem_append_right _ (List.mem_cons_of_mem _ hf)
  | stop hitems => exact ⟨⟨fun _ => id, id, id⟩, .quiet rfl rfl⟩

theorem faultStep_of_capture? (h : e.capture? = some e') : e.Onward e' ∧ e.FaultStep e' := by
  cases captureStep_of_capture? h with
  | classify => exact ⟨⟨fun _ => id, id, id⟩, .quiet rfl rfl⟩
  | sendChunk => exact ⟨⟨fun _ => id, id, id⟩, .quiet rfl rfl⟩
  | sendFrame => exact ⟨⟨fun _ => id, id, id⟩, .quiet rfl rfl⟩
  | takeRecord htasks hprogress hw =>
    refine ⟨⟨fun fault hf => ?_, id, id⟩, .quiet rfl rfl⟩
    rw [pending_cons hw]
    exact List.mem_cons_of_mem _ hf
  | takeFault htasks hprogress hw =>
    refine ⟨⟨fun fault hf => ?_, fun _ => by simp [Engine.finish], id⟩,
      .source rfl rfl ?_ hprogress (by simp [Engine.finish])⟩
    · rw [pending_cons hw]
      exact List.mem_cons_of_mem _ hf
    · rw [pending_cons hw]
      exact List.mem_cons_self
  | finish => exact ⟨⟨fun _ => id, fun _ => by simp [Engine.finish], id⟩, .quiet rfl rfl⟩
  | leave =>
    refine ⟨⟨fun fault hf => ?_, fun _ => by simp [Engine.leave], id⟩, .quiet rfl rfl⟩
    exact List.mem_append_right _ hf
  | stop => exact ⟨⟨fun _ => id, fun _ => by simp [Engine.stop], id⟩, .quiet rfl rfl⟩

theorem onward_leave (streams chunks : Nat) :
    e.Onward (leave { e with streamsCompleted := streams, chunksEmitted := chunks }) :=
  ⟨fun _ hf => List.mem_append_right _ hf, fun _ => by simp [leave], id⟩

theorem faultStep_of_stopCapture? (h : e.stopCapture? = some e') :
    e.Onward e' ∧ e.FaultStep e' := by
  unfold stopCapture? at h
  split at h
  · cases h
  split at h
  all_goals cases h
  all_goals exact ⟨onward_leave _ _, .quiet rfl rfl⟩

theorem DispatchStep.faultStep (h : e.DispatchStep e') : e.Onward e' ∧ e.FaultStep e' := by
  cases h with
  | goesOn hd => exact ⟨⟨fun _ => id, id, fun hs => absurd hs hd⟩, .quiet rfl rfl⟩
  | fails hd => exact ⟨⟨fun _ => id, id, fun _ => rfl⟩, .predicate rfl rfl hd rfl⟩

theorem faultStep_of_step? {a : Action} (h : e.step? a = some e') :
    e.Onward e' ∧ e.FaultStep e' := by
  have hstill : e.Onward e := ⟨fun _ => id, id, id⟩
  cases a with
  | read => exact faultStep_of_read? h
  | stopReading =>
    simp only [step?] at h
    split at h
    · cases h
      exact ⟨⟨fun _ => id, id, id⟩, .quiet rfl rfl⟩
    · cases h
  | capture => exact faultStep_of_capture? h
  | sweep cutoff =>
    simp only [step?, sweep?] at h
    split at h
    · cases h
      exact ⟨⟨fun _ => id, id, id⟩, .quiet rfl rfl⟩
    · cases h
  | stopCapture => exact faultStep_of_stopCapture? h
  | dispatch => exact (dispatchStep_of_dispatch? h).faultStep
  | stopDispatch => exact (dispatchStep_of_stopDispatch? h).faultStep
  | receive output =>
    cases output with
    | packets =>
      obtain ⟨packets, -, rfl⟩ := Option.map_eq_some_iff.1 h
      exact ⟨⟨fun _ => id, id, id⟩, .quiet rfl rfl⟩
    | chunks =>
      obtain ⟨chunks, -, rfl⟩ := Option.map_eq_some_iff.1 h
      exact ⟨⟨fun _ => id, id, id⟩, .quiet rfl rfl⟩
  | receiveFault =>
    obtain ⟨taken, hr, rfl⟩ := Option.map_eq_some_iff.1 h
    refine ⟨⟨fun _ => id, id, id⟩, ?_⟩
    unfold Queue.receive? at hr
    split at hr
    · cases hr
    · rename_i hw
      exact Option.some.inj hr ▸ .receive hw rfl rfl
  | abandon output =>
    cases output with
    | packets =>
      cases h
      exact ⟨⟨fun _ => id, id, id⟩, .quiet rfl rfl⟩
    | chunks =>
      cases h
      exact ⟨⟨fun _ => id, id, id⟩, .quiet rfl rfl⟩
  | cancel =>
    cases h
    exact ⟨⟨fun _ => id, id, id⟩, .quiet rfl rfl⟩

/-! ### What the caller hears -/

/-- The queue holds one fault at most, and it was given some of those that were reported, the first
of them included. -/
structure Heard (e : Engine σ τ) : Prop where
  queue : e.faults.InUse 1
  single : e.faults.waiting.length ≤ 1
  sublist : e.faults.history.Sublist e.reported
  first : e.faults.history.head? = e.reported.head?

/-- Faults are never taken back, and after the caller has taken all that waited, the next one that
is reported comes to it. -/
structure Later (e e' : Engine σ τ) : Prop where
  reported : e.reported <+: e'.reported
  history : e.faults.history <+: e'.faults.history
  silent : e.faults.waiting = [] → e'.faults.waiting = [] ∧ e'.reported = e.reported ∨
    e.faults.history.length < e'.faults.history.length

/-- In a step, a fault comes to the caller when it is reported and none waits. -/
def Hears (e e' : Engine σ τ) : Prop :=
  e.faults.history.length < e'.faults.history.length →
    e.faults.waiting = [] ∧ e'.faults.history.length = e.faults.history.length + 1 ∧
      e.reported.length < e'.reported.length

theorem hears_of_eq (h : e'.faults.history = e.faults.history) : e.Hears e' := by
  intro hgrown
  rw [h] at hgrown
  exact absurd hgrown (Nat.lt_irrefl _)

theorem Later.refl (e : Engine σ τ) : e.Later e :=
  ⟨List.prefix_refl _, List.prefix_refl _, fun hw => .inl ⟨hw, rfl⟩⟩

theorem Later.trans {e'' : Engine σ τ} (h : e.Later e') (h' : e'.Later e'') : e.Later e'' := by
  refine ⟨h.reported.trans h'.reported, h.history.trans h'.history, fun hw => ?_⟩
  rcases h.silent hw with ⟨hw', hr⟩ | hgrown
  · rcases h'.silent hw' with ⟨hw'', hr'⟩ | hgrown'
    · exact .inl ⟨hw'', hr'.trans hr⟩
    · exact .inr (Nat.lt_of_le_of_lt h.history.length_le hgrown')
  · exact .inr (Nat.lt_of_lt_of_le hgrown h'.history.length_le)

/-- A fault finds room exactly where none waits. -/
theorem offer_cases {q : Queue SessionFault} (h : q.InUse 1) (fault : SessionFault) :
    q.waiting = [] ∧ q.offer fault = q.put fault ∨ q.waiting ≠ [] ∧ q.offer fault = q := by
  unfold Queue.offer Queue.hasRoom
  rw [h.hasReceiver, h.capacity_eq]
  rcases q.waiting with _ | ⟨first, more⟩
  · exact .inl ⟨rfl, by simp⟩
  · exact .inr ⟨by simp, by simp⟩

/-- A fault is reported: it comes to the caller if no other one waits. -/
theorem Heard.report (h : e.Heard) {fault : SessionFault}
    (hf : e'.faults = e.faults.offer fault) (hr : e'.reported = e.reported ++ [fault]) :
    e'.Heard ∧ e.Later e' ∧ e.Hears e' := by
  have hreported : e.reported <+: e'.reported := hr ▸ List.prefix_append ..
  rcases offer_cases h.queue fault with ⟨hw, hput⟩ | ⟨hw, hlost⟩
  · have hhistory : e'.faults.history = e.faults.history ++ [fault] := by rw [hf, hput]; rfl
    have hwaiting : e'.faults.waiting = [fault] := by rw [hf, hput, Queue.put, hw]; rfl
    have hlength : e'.faults.history.length = e.faults.history.length + 1 := by
      rw [hhistory, List.length_append, List.length_singleton]
    refine ⟨⟨?_, ?_, ?_, ?_⟩, ⟨hreported, hhistory ▸ List.prefix_append .., fun _ => .inr ?_⟩,
      fun _ => ⟨hw, hlength, ?_⟩⟩
    · rw [hf, hput]
      exact h.queue.put fault
    · rw [hwaiting]
      exact Nat.le_refl 1
    · rw [hhistory, hr]
      exact h.sublist.append (List.Sublist.refl _)
    · rw [hhistory, hr, List.head?_append, List.head?_append, h.first]
    · rw [hlength]
      exact Nat.lt_succ_self _
    · rw [hr, List.length_append]
      exact Nat.lt_succ_self _
  · rw [hlost] at hf
    refine ⟨⟨hf ▸ h.queue, hf ▸ h.single, ?_, ?_⟩, ⟨hreported, hf ▸ List.prefix_refl _,
      fun hw' => absurd hw' hw⟩, hears_of_eq (by rw [hf])⟩
    · rw [hf, hr]
      exact h.sublist.trans (List.sublist_append_left ..)
    · -- something waits, so this is not the first fault
      have hne : e.faults.history ≠ [] := fun hn =>
        hw (List.suffix_nil.1 (hn ▸ h.queue.waiting))
      rw [hf, hr, List.head?_append, ← h.first, List.head?_eq_some_head hne]
      rfl

theorem Heard.step (h : e.Heard) (hs : e.FaultStep e') :
    e'.Heard ∧ e.Later e' ∧ e.Hears e' := by
  cases hs with
  | quiet hf hr =>
    refine ⟨⟨hf ▸ h.queue, hf ▸ h.single, hf ▸ hr ▸ h.sublist, hf ▸ hr ▸ h.first⟩,
      ⟨hr ▸ List.prefix_refl _, hf ▸ List.prefix_refl _, fun hw => .inl ⟨hf ▸ hw, hr⟩⟩,
      hears_of_eq (by rw [hf])⟩
  | source hf hr => exact h.report hf hr
  | predicate hf hr => exact h.report hf hr
  | receive hw hf hr =>
    have hhistory : e'.faults.history = e.faults.history := by rw [hf]
    refine ⟨⟨hf ▸ h.queue.drop hw, ?_, ?_, ?_⟩,
      ⟨hr ▸ List.prefix_refl _, hhistory ▸ List.prefix_refl _, fun hnone => ?_⟩,
      hears_of_eq hhistory⟩
    · have := h.single
      rw [hw, List.length_cons] at this
      rw [hf]
      exact Nat.le_of_succ_le this
    · rw [hhistory, hr]
      exact h.sublist
    · rw [hhistory, hr]
      exact h.first
    · simp [hnone] at hw

theorem Heard.run : ∀ {actions : List Action} {e : Engine σ τ}, e.Heard →
    e.run? actions = some e' → e'.Heard ∧ e.Later e'
  | [], e, h, hrun => by
    obtain rfl : e = e' := Option.some.inj hrun
    exact ⟨h, .refl e⟩
  | a :: actions, e, h, hrun => by
    rw [run?_cons] at hrun
    obtain ⟨between, hs, hrun⟩ := Option.bind_eq_some_iff.1 hrun
    obtain ⟨h₁, hlater, -⟩ := h.step (faultStep_of_step? hs).2
    obtain ⟨h₂, hrest⟩ := h₁.run hrun
    exact ⟨h₂, hlater.trans hrest⟩

theorem Heard.faultsReceived_append (h : e.Heard) :
    e.faultsReceived ++ e.faults.waiting = e.faults.history :=
  h.queue.received_append

/-- Before a second fault came to the caller, it had taken the first one. -/
theorem Heard.taken_before : ∀ {actions : List Action} {e : Engine σ τ}, e.Heard →
    e.faults.history.length ≤ 1 → e.run? actions = some e' → 1 < e'.faults.history.length →
      ∃ before later between, actions = before ++ later ∧ e.run? before = some between ∧
        between.faultsReceived ≠ [] ∧ between.reported ≠ e'.reported
  | [], e, h, hle, hrun, hlt => by
    obtain rfl : e = e' := Option.some.inj hrun
    omega
  | a :: actions, e, h, hle, hrun, hlt => by
    rw [run?_cons] at hrun
    obtain ⟨next, hs, hrun⟩ := Option.bind_eq_some_iff.1 hrun
    obtain ⟨h₁, -, hhears⟩ := h.step (faultStep_of_step? hs).2
    by_cases hnext : next.faults.history.length ≤ 1
    · obtain ⟨before, later, between, rfl, hb, htaken, hnew⟩ := h₁.taken_before hnext hrun hlt
      refine ⟨a :: before, later, between, rfl, ?_, htaken, hnew⟩
      rw [run?_cons, hs]
      exact hb
    · -- this step brings the second fault, so the caller had taken the first one
      obtain ⟨hw, hlength, hreported⟩ := hhears (by omega)
      have hreceived := h.faultsReceived_append
      rw [hw, List.append_nil] at hreceived
      obtain ⟨-, hrest⟩ := h₁.run hrun
      have := hrest.reported.length_le
      refine ⟨[], a :: actions, e, rfl, rfl, fun hnone => ?_, fun hsame => ?_⟩
      · rw [← hreceived, hnone, List.length_nil] at hlength
        omega
      · rw [hsame] at hreported
        omega

/-- The caller is sent no second fault exactly where none is reported once it has taken the first.
-/
theorem Heard.length_le_one_iff (h : e.Heard) (hle : e.faults.history.length ≤ 1)
    {actions : List Action} (hrun : e.run? actions = some e') :
    e'.faults.history.length ≤ 1 ↔ ∀ before later between, actions = before ++ later →
      e.run? before = some between → between.faultsReceived ≠ [] →
        between.reported = e'.reported := by
  constructor
  · rintro hone before later between rfl hb htaken
    rw [run?_append, hb] at hrun
    obtain ⟨h₁, -⟩ := h.run hb
    obtain ⟨-, hlater⟩ := h₁.run hrun
    have hreceived := congrArg List.length h₁.faultsReceived_append
    have hsome := List.length_pos_iff.2 htaken
    have hless := hlater.history.length_le
    rw [List.length_append] at hreceived
    have hw : between.faults.waiting = [] := List.length_eq_zero_iff.1 (by omega)
    rcases hlater.silent hw with ⟨-, hsame⟩ | hgrown
    · exact hsame.symm
    · omega
  · intro hquiet
    by_contra hmore
    obtain ⟨before, later, between, hsplit, hb, htaken, hnew⟩ :=
      h.taken_before hle hrun (Nat.lt_of_not_le hmore)
    exact hnew (hquiet before later between hsplit hb htaken)

/-! ### What is reported -/

/-- The source and the predicates report a fault at most once, the source that of the script. -/
structure Reports (script : Script) (e : Engine σ τ) : Prop where
  noSource : e.progress = .capturing → ∀ fault ∈ e.reported, fault.isOfSource = false
  noPredicate : e.dispatch ≠ .stopped → ∀ fault ∈ e.reported, fault.isOfSource = true
  kinds : e.reported.Pairwise fun a b => a.isOfSource ≠ b.isOfSource
  pending : ∀ fault, .error fault ∈ e.pending → script.fault = some fault
  ofScript : ∀ fault, .source fault ∈ e.reported → script.fault = some fault

variable {script : Script}

/-- The faults are still of different kinds after one of a kind that none of them is of. -/
theorem kinds_concat {faults : List SessionFault} {fault : SessionFault}
    (h : faults.Pairwise fun a b => a.isOfSource ≠ b.isOfSource)
    (hnew : ∀ a ∈ faults, a.isOfSource ≠ fault.isOfSource) :
    (faults ++ [fault]).Pairwise fun a b => a.isOfSource ≠ b.isOfSource :=
  List.pairwise_append.2 ⟨h, List.pairwise_singleton .., fun a ha b hb => by
    rw [List.mem_singleton.1 hb]
    exact hnew a ha⟩

theorem Reports.step (h : e.Reports script) (ho : e.Onward e') (hs : e.FaultStep e') :
    e'.Reports script := by
  have hprogress : e'.progress = .capturing → e.progress = .capturing := fun hc =>
    Decidable.not_not.1 fun hn => ho.progress hn hc
  have hdispatch : e'.dispatch ≠ .stopped → e.dispatch ≠ .stopped := fun hn hd =>
    hn (ho.dispatch hd)
  have hpending : ∀ fault, .error fault ∈ e'.pending → script.fault = some fault := fun fault hf =>
    h.pending fault (ho.pending fault hf)
  have hsame : e'.reported = e.reported → e'.Reports script := fun hr =>
    ⟨fun hc => hr ▸ h.noSource (hprogress hc), fun hn => hr ▸ h.noPredicate (hdispatch hn),
      hr ▸ h.kinds, hpending, hr ▸ h.ofScript⟩
  cases hs with
  | quiet hf hr => exact hsame hr
  | receive hw hf hr => exact hsame hr
  | @source fault hf hr hitem hcapturing hover =>
    refine ⟨fun hc => absurd hc hover, fun hn a ha => ?_, ?_, hpending, fun f hfm => ?_⟩
    · rw [hr, List.mem_append, List.mem_singleton] at ha
      rcases ha with ha | rfl
      · exact h.noPredicate (hdispatch hn) a ha
      · rfl
    · rw [hr]
      refine kinds_concat h.kinds fun a ha => ?_
      rw [h.noSource hcapturing a ha]
      exact Bool.false_ne_true
    · rw [hr, List.mem_append, List.mem_singleton] at hfm
      rcases hfm with hfm | heq
      · exact h.ofScript f hfm
      · rw [SessionFault.source.inj heq]
        exact h.pending fault hitem
  | predicate hf hr hgoing hover =>
    refine ⟨fun hc a ha => ?_, fun hn => absurd hover hn, ?_, hpending, fun f hfm => ?_⟩
    · rw [hr, List.mem_append, List.mem_singleton] at ha
      rcases ha with ha | rfl
      · exact h.noSource (hprogress hc) a ha
      · rfl
    · rw [hr]
      refine kinds_concat h.kinds fun a ha => ?_
      rw [h.noPredicate hgoing a ha]
      exact Bool.noConfusion
    · rw [hr, List.mem_append, List.mem_singleton] at hfm
      rcases hfm with hfm | heq
      · exact h.ofScript f hfm
      · cases heq

theorem Reports.run : ∀ {actions : List Action} {e : Engine σ τ}, e.Reports script →
    e.run? actions = some e' → e'.Reports script
  | [], e, h, hrun => by
    obtain rfl : e = e' := Option.some.inj hrun
    exact h
  | a :: actions, e, h, hrun => by
    rw [run?_cons] at hrun
    obtain ⟨between, hs, hrun⟩ := Option.bind_eq_some_iff.1 hrun
    obtain ⟨ho, hf⟩ := faultStep_of_step? hs
    exact (h.step ho hf).run hrun

/-- Without a dispatcher, only the source reports faults. -/
theorem isOfSource_of_stopped : ∀ {actions : List Action} {e : Engine σ τ}, e.dispatch = .stopped →
    (∀ fault ∈ e.reported, fault.isOfSource = true) → e.run? actions = some e' →
      ∀ fault ∈ e'.reported, fault.isOfSource = true
  | [], e, _, hr, hrun => by
    obtain rfl : e = e' := Option.some.inj hrun
    exact hr
  | a :: actions, e, hd, hr, hrun => by
    rw [run?_cons] at hrun
    obtain ⟨between, hs, hrun⟩ := Option.bind_eq_some_iff.1 hrun
    obtain ⟨ho, hf⟩ := faultStep_of_step? hs
    refine isOfSource_of_stopped (ho.dispatch hd) ?_ hrun
    cases hf with
    | quiet _ hsame => rwa [hsame]
    | receive _ _ hsame => rwa [hsame]
    | source _ hmore =>
      rw [hmore]
      intro fault hfault
      rcases List.mem_append.1 hfault with hfault | hfault
      · exact hr fault hfault
      · rw [List.mem_singleton.1 hfault]
        rfl
    | predicate _ _ hgoing => exact absurd hd hgoing

theorem heard_start (s : Session σ τ) (script : Script) : (start s script).Heard :=
  ⟨Queue.inUse_empty 1, Nat.zero_le _, List.Sublist.refl [], rfl⟩

theorem reports_start (s : Session σ τ) (script : Script) : (start s script).Reports script := by
  refine ⟨by simp [start], by simp [start], .nil, fun fault hf => ?_, by simp [start]⟩
  simp only [pending, start, Queue.empty, Script.items, List.nil_append, List.mem_append,
    List.mem_map, reduceCtorEq, and_false, exists_false, false_or, Except.error.injEq,
    exists_eq_right, Option.mem_toList] at hf
  exact hf

theorem length_le_two_of_kinds : ∀ {faults : List SessionFault},
    faults.Pairwise (fun a b => a.isOfSource ≠ b.isOfSource) → faults.length ≤ 2
  | [], _ => Nat.zero_le _
  | [_], _ => Nat.le_succ _
  | [_, _], _ => Nat.le_refl _
  | a :: b :: c :: _, h => by
    simp only [List.pairwise_cons, List.mem_cons, forall_eq_or_imp] at h
    obtain ⟨⟨hab, hac, -⟩, ⟨hbc, -⟩, -⟩ := h
    -- a third fault would be of the same kind as the second, both differing from the first
    have hsame := (Bool.eq_not_of_ne hab).symm.trans (Bool.eq_not_of_ne hac)
    exact absurd (Bool.not_inj hsame) hbc

theorem length_le_one_of_kind {faults : List SessionFault} (ofSource : Bool)
    (h : faults.Pairwise (fun a b => a.isOfSource ≠ b.isOfSource))
    (hall : ∀ fault ∈ faults, fault.isOfSource = ofSource) : faults.length ≤ 1 := by
  match faults, h with
  | [], _ => exact Nat.zero_le _
  | [_], _ => exact Nat.le_refl _
  | a :: b :: _, h =>
    have hab := (List.pairwise_cons.1 h).1 b List.mem_cons_self
    rw [hall a List.mem_cons_self, hall b (by simp)] at hab
    exact absurd rfl hab

/-- Whatever happens in a session, and in whatever order, the caller hears of the first fault that
is reported, and of no more than two in all: one of the source and one of a predicate. It hears of a
second one exactly where that is reported after the caller has taken the first. Where the source
ends by itself or no predicate is set there is only one. -/
theorem faults_received (s : Session σ τ) (script : Script) {actions : List Action}
    {e : Engine σ τ} (hrun : (start s script).run? actions = some e) :
    (e.faultsReceived <+: e.faults.history ∧ e.faults.history.Sublist e.reported ∧
        e.faults.history.head? = e.reported.head?) ∧
      (e.reported.length ≤ 2 ∧ e.reported.Pairwise (fun a b => a.isOfSource ≠ b.isOfSource) ∧
        ∀ fault, .source fault ∈ e.reported → script.fault = some fault) ∧
      (e.faults.history.length ≤ 1 ↔ ∀ before later between, actions = before ++ later →
        (start s script).run? before = some between → between.faultsReceived ≠ [] →
          between.reported = e.reported) ∧
      (script.fault = none ∨ s.packetPredicate = none ∧ s.chunkPredicate = none →
        e.reported.length ≤ 1) := by
  obtain ⟨h, -⟩ := (heard_start s script).run hrun
  have hreports := (reports_start s script).run hrun
  refine ⟨⟨h.queue.received_prefix, h.sublist, h.first⟩,
    ⟨length_le_two_of_kinds hreports.kinds, hreports.kinds, hreports.ofScript⟩,
    (heard_start s script).length_le_one_iff (Nat.zero_le _) hrun, ?_⟩
  rintro (hnone | ⟨hpackets, hchunks⟩)
  · refine length_le_one_of_kind false hreports.kinds fun fault hf => ?_
    cases fault with
    | source fault =>
      have := hreports.ofScript fault hf
      rw [hnone] at this
      cases this
    | settings => rfl
    | predicate => rfl
  · refine length_le_one_of_kind true hreports.kinds ?_
    exact isOfSource_of_stopped (by simp [start, hpackets, hchunks]) (by simp [start]) hrun

/-- A session whose predicate for frames fails at its only frame, and whose source fails after that.
-/
def failingTwice : Session Unit Unit where
  settings := { onPredicateFailure := .keepCapturing }
  packetPredicate := some ⟨(), fun _ _ => .error "broken"⟩
  chunkPredicate := some ⟨(), fun _ _ => .ok (true, ())⟩
  taken := fun _ => true

/-- The source of that session. -/
def frameThenFault : Script :=
  ⟨[.record ⟨none, linkRawIP, [1], 1, 0⟩, .timedOut 400000000], some (.reported "disk: gone")⟩

/-- The steps until the predicate has failed. -/
def untilPredicateFails : List Action :=
  [.read, .capture, .capture, .dispatch, .dispatch, .dispatch, .dispatch, .dispatch, .dispatch]

/-- A caller that takes its faults at the end hears of the first one only. -/
theorem faults_received_at_the_end :
    ∃ e, (start failingTwice frameThenFault).run?
        (untilPredicateFails ++ [.read, .read, .capture, .receiveFault]) = some e ∧
      e.reported = [.predicate .packets "broken", .source (.reported "disk: gone")] ∧
      e.faults.history.head? = some (.predicate .packets "broken") := by
  have hend : ((start failingTwice frameThenFault).run?
      (untilPredicateFails ++ [.read, .read, .capture, .receiveFault])).map reported =
      some [.predicate .packets "broken", .source (.reported "disk: gone")] := by
    decide +kernel
  obtain ⟨e, hrun, hreported⟩ := Option.map_eq_some_iff.1 hend
  refine ⟨e, hrun, hreported, ?_⟩
  rw [(faults_received failingTwice frameThenFault hrun).1.2.2, hreported]
  rfl

/-- A caller that takes the first fault while the source pauses hears of both. -/
theorem two_faults_received :
    ((start failingTwice frameThenFault).run? (untilPredicateFails ++
        [.receiveFault, .read, .read, .capture, .receiveFault])).map faultsReceived =
      some [.predicate .packets "broken", .source (.reported "disk: gone")] := by
  decide +kernel

end Engine

end Pipeline

end Trawl
