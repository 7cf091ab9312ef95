import Mathlib.Data.List.Nodup
import Mathlib.Tactic.ByContra
import Trawl.Proofs.Reassembly.Accounting

/-!
# Flows do not influence each other

As long as the ceiling of all streams forces none out, a flow fares as if it were the only one: its
stream is the same, call by call, in the run from which all segments of other flows are left out,
and is completed by the same calls with the same bytes (`Pool.flows_isolated`).

The two pools are compared through what they hold of that flow (`Pool.Mirrors`). They share no more
than that: the pages they count differ, but the pool with fewer streams never counts more, so that
its ceiling is not reached either.
-/

namespace Trawl.Reassembly

/-- Whether a call can have to do with a flow: flushing does, and a segment of the flow itself. -/
def Call.concerns (flow : Flow) : Call → Bool
  | .assemble segment _ _ => segment.flow = flow
  | .flushOlderThan _ => true
  | .flushAll => true
  | .list _ => false

/-- The completed streams of one flow. -/
def completedOf (flow : Flow) (done : List Completed) : List Completed :=
  done.filter (·.flow = flow)

theorem completedOf_append (flow : Flow) (done more : List Completed) :
    completedOf flow (done ++ more) = completedOf flow done ++ completedOf flow more :=
  List.filter_append ..

theorem completedOf_eq_self {flow : Flow} {done : List Completed} (h : ∀ d ∈ done, d.flow = flow) :
    completedOf flow done = done :=
  List.filter_eq_self.2 fun d hd => by simpa using h d hd

theorem completedOf_eq_nil {flow : Flow} {done : List Completed} (h : ∀ d ∈ done, d.flow ≠ flow) :
    completedOf flow done = [] :=
  List.filter_eq_nil_iff.2 fun d hd => by simpa using h d hd

namespace Pool

variable {p q : Pool} {flow other : Flow}

/-! ### What is forced out -/

theorem evictions_le_enforceTotal (p : Pool) : p.evictions ≤ p.enforceTotal.1.evictions := by
  fun_induction enforceTotal p with
  | case1 => exact Nat.le_refl _
  | case2 p hover flow hv first rest ih =>
    have hfirst : first.1.evictions = p.evictions + 1 := evictions_complete ..
    have : first.1.evictions ≤ rest.1.evictions := ih
    show p.evictions ≤ rest.1.evictions
    omega
  | case3 => exact Nat.le_refl _

/-- A pool that forces no stream out is within its ceiling already. -/
theorem Accounted.pages_le_of_evictions (h : p.Accounted)
    (he : p.enforceTotal.1.evictions = p.evictions) : p.pages ≤ p.limits.total := by
  by_contra hover
  rcases hv : p.victim? with _ | flow
  · have hnone := victim?_eq_none hv
    rw [← h.pages] at hnone
    omega
  · rw [enforceTotal_of_some (Nat.not_le.1 hover) hv] at he
    have hle := evictions_le_enforceTotal
      ({ p with evictions := p.evictions + 1 }.complete flow .evicted).1
    rw [evictions_complete] at hle
    simp only at he hle
    omega

theorem evictions_le_call (p : Pool) : ∀ c : Call, p.evictions ≤ (p.call c).1.evictions
  | .assemble segment payload now => by
    simp only [call, assemble]
    split
    · exact Nat.le_refl _
    · rename_i before hs
      refine Nat.le_trans (Nat.le_of_eq ?_) (evictions_le_enforceTotal _)
      rw [evictions_conclude]
      rfl
  | .flushOlderThan _ => Nat.le_of_eq (evictions_completeAll ..).symm
  | .flushAll => Nat.le_of_eq (evictions_completeAll ..).symm
  | .list _ => Nat.le_refl _

theorem evictions_le_after : ∀ (calls : List Call) (p : Pool),
    p.evictions ≤ (p.after calls).evictions
  | [], _ => Nat.le_refl _
  | c :: calls, p => Nat.le_trans (evictions_le_call p c) (evictions_le_after calls _)

/-! ### The stream of one flow -/

theorem find?_of_mem {stream : Stream} (hu : (p.streams.map (·.1)).Nodup)
    (h : (flow, stream) ∈ p.streams) : p.find? flow = some stream := by
  rcases hf : p.streams.find? (·.1 = flow) with _ | e
  · have := List.find?_eq_none.1 hf _ h
    simp at this
  · have hk : e.1 = flow := by simpa using List.find?_some hf
    have he := List.inj_on_of_nodup_map hu (List.mem_of_find?_eq_some hf) h hk
    unfold find?
    rw [hf, he]
    rfl

theorem isSome_find?_iff : (p.find? flow).isSome = true ↔ flow ∈ p.streams.map (·.1) := by
  unfold find?
  rw [Option.isSome_map, List.find?_isSome, List.mem_map]
  simp only [decide_eq_true_eq]

theorem find?_put_self (stream : Stream) : ∀ streams : List (Flow × Stream),
    (put flow stream streams).find? (·.1 = flow) = some (flow, stream)
  | [] => by simp [put]
  | e :: others => by
    rw [put]
    by_cases he : e.1 = flow
    · rw [if_pos he]
      simp
    · rw [if_neg he, List.find?_cons, find?_put_self stream others]
      simp [he]

theorem find?_put_other (hne : other ≠ flow) (stream : Stream) :
    ∀ streams : List (Flow × Stream),
      (put other stream streams).find? (·.1 = flow) = streams.find? (·.1 = flow)
  | [] => by simp [put, hne]
  | e :: others => by
    rw [put]
    by_cases he : e.1 = other
    · rw [if_pos he, List.find?_cons, List.find?_cons]
      simp [he, hne]
    · rw [if_neg he, List.find?_cons, List.find?_cons, find?_put_other hne stream others]

theorem find?_without_other (hne : other ≠ flow) (streams : List (Flow × Stream)) :
    (without other streams).find? (·.1 = flow) = streams.find? (·.1 = flow) := by
  unfold without
  rw [List.find?_filter]
  congr 1
  funext e
  by_cases he : e.1 = flow
  · simp [he, hne.symm]
  · simp [he]

theorem find?_complete_self (p : Pool) (flow : Flow) (ending : Ending) :
    (p.complete flow ending).1.find? flow = none := by
  unfold complete
  rcases hf : p.find? flow with _ | stream
  · exact hf
  · simp [find?, without]

theorem find?_complete_other (hne : other ≠ flow) (p : Pool) (ending : Ending) :
    (p.complete other ending).1.find? flow = p.find? flow := by
  unfold complete
  split
  · rfl
  · exact congrArg (Option.map (·.2)) (find?_without_other hne p.streams)

theorem streams_complete_subset (p : Pool) (flow : Flow) (ending : Ending) :
    (p.complete flow ending).1.streams ⊆ p.streams := by
  unfold complete
  split
  · exact List.Subset.refl _
  · exact List.filter_subset_self p.streams

theorem flow_of_complete {ending : Ending} {done : Completed}
    (h : (p.complete flow ending).2 = some done) : done.flow = flow := by
  unfold complete at h
  rcases hf : p.find? flow with _ | stream
  · simp [hf] at h
  · simp only [hf] at h
    split at h
    · simp at h
    · rw [← Option.some.inj h]

/-- What completing a flow gives depends on its stream only. -/
theorem complete_snd_eq (h : q.find? flow = p.find? flow) (ending : Ending) :
    (q.complete flow ending).2 = (p.complete flow ending).2 := by
  unfold complete
  rw [h]
  rcases p.find? flow with _ | stream <;> rfl

theorem completedOf_complete_self (p : Pool) (flow : Flow) (ending : Ending) :
    completedOf flow (p.complete flow ending).2.toList = (p.complete flow ending).2.toList :=
  completedOf_eq_self fun _ hd => flow_of_complete (Option.mem_toList.1 hd)

theorem completedOf_complete_other (hne : other ≠ flow) (p : Pool) (ending : Ending) :
    completedOf flow (p.complete other ending).2.toList = [] :=
  completedOf_eq_nil fun _ hd => by
    rw [flow_of_complete (Option.mem_toList.1 hd)]
    exact hne

/-! ### Two pools that agree on a flow -/

/-- A pool `q` of one flow agrees with a pool `p` on the stream of that flow. -/
structure Mirrors (flow : Flow) (p q : Pool) : Prop where
  limits : q.limits = p.limits
  stream : q.find? flow = p.find? flow
  only : ∀ e ∈ q.streams, e.1 = flow
  whole : p.Accounted
  part : q.Accounted

theorem mirrors_empty (limits : Limits) (flow : Flow) :
    Mirrors flow (empty limits) (empty limits) :=
  ⟨rfl, rfl, by simp [empty], accounted_empty limits, accounted_empty limits⟩

theorem Mirrors.pages_le (h : Mirrors flow p q) : q.pages ≤ p.pages := by
  have hunique := h.part.unique
  have honly := h.only
  rw [h.part.pages]
  rcases hs : q.streams with _ | ⟨e, _ | ⟨e', others⟩⟩
  · exact Nat.zero_le _
  · have he : q.find? e.1 = some e.2 := find?_of_mem hunique (by rw [hs]; exact List.mem_cons_self)
    rw [honly e (by simp [hs]), h.stream] at he
    have := le_sumOf Stream.waitingPages (mem_of_find? he)
    rw [← h.whole.pages] at this
    simpa [sumOf] using this
  · have := (honly e (by simp [hs])).trans (honly e' (by simp [hs])).symm
    simp [hs, this] at hunique

theorem Mirrors.complete_self (h : Mirrors flow p q) (ending : Ending) :
    Mirrors flow (p.complete flow ending).1 (q.complete flow ending).1 where
  limits := by rw [limits_complete, limits_complete, h.limits]
  stream := by rw [find?_complete_self, find?_complete_self]
  only e he := h.only e (streams_complete_subset q flow ending he)
  whole := h.whole.complete flow ending
  part := h.part.complete flow ending

theorem Mirrors.complete_other (h : Mirrors flow p q) (hne : other ≠ flow) (ending : Ending) :
    Mirrors flow (p.complete other ending).1 q where
  limits := by rw [limits_complete, h.limits]
  stream := by rw [find?_complete_other hne, h.stream]
  only := h.only
  whole := h.whole.complete other ending
  part := h.part

/-- Completing flows one after the other comes to completing `flow` alone, if it is one of them. -/
theorem Mirrors.completeAll (ending : Ending) : ∀ (flows : List Flow) {p q : Pool},
    Mirrors flow p q →
      (flow ∈ flows → Mirrors flow (Pool.completeAll ending flows p).1 (q.complete flow ending).1 ∧
        completedOf flow (Pool.completeAll ending flows p).2 = (q.complete flow ending).2.toList) ∧
      (flow ∉ flows → Mirrors flow (Pool.completeAll ending flows p).1 q ∧
        completedOf flow (Pool.completeAll ending flows p).2 = [])
  | [], p, q, h => ⟨by simp, fun _ => ⟨h, rfl⟩⟩
  | first :: flows, p, q, h => by
    simp only [Pool.completeAll, completedOf_append, List.mem_cons, not_or]
    by_cases hfirst : flow = first
    · rw [← hfirst, completedOf_complete_self, ← complete_snd_eq h.stream ending]
      refine ⟨fun _ => ?_, fun hn => absurd rfl hn.1⟩
      -- Its stream is gone by then, so that naming it once more does nothing.
      have hagain : (q.complete flow ending).1.complete flow ending
          = ((q.complete flow ending).1, none) := by
        rw [Pool.complete, find?_complete_self]
      obtain ⟨hin, hout⟩ := Mirrors.completeAll ending flows (h.complete_self ending)
      by_cases hm : flow ∈ flows
      · obtain ⟨hrest, hdone⟩ := hin hm
        rw [hagain] at hrest hdone
        exact ⟨hrest, by rw [hdone]; simp⟩
      · obtain ⟨hrest, hdone⟩ := hout hm
        exact ⟨hrest, by rw [hdone]; simp⟩
    · have hother := h.complete_other (Ne.symm hfirst) ending
      obtain ⟨hin, hout⟩ := Mirrors.completeAll ending flows hother
      rw [completedOf_complete_other (Ne.symm hfirst), List.nil_append]
      exact ⟨fun hm => hin (hm.resolve_left hfirst), fun hn => hout hn.2⟩

/-! ### Calls that flush -/

theorem mem_idleFlows_iff (h : p.Accounted) (cutoff : Nat) :
    flow ∈ p.idleFlows cutoff ↔ ∃ stream, p.find? flow = some stream ∧ stream.lastSeen < cutoff := by
  simp only [idleFlows, List.mem_map, List.mem_mergeSort, List.mem_filter, decide_eq_true_eq,
    p.table_perm.mem_iff]
  constructor
  · rintro ⟨⟨f, stream⟩, ⟨hm, hlast⟩, rfl⟩
    exact ⟨stream, find?_of_mem h.unique hm, hlast⟩
  · rintro ⟨stream, hf, hlast⟩
    exact ⟨(flow, stream), ⟨mem_of_find? hf, hlast⟩, rfl⟩

theorem streams_completeAll_subset (ending : Ending) : ∀ (flows : List Flow) (p : Pool),
    (completeAll ending flows p).1.streams ⊆ p.streams
  | [], _ => List.Subset.refl _
  | flow :: flows, p =>
    List.Subset.trans (streams_completeAll_subset ending flows _)
      (streams_complete_subset p flow ending)

theorem flow_of_completeAll (ending : Ending) : ∀ (flows : List Flow) {p : Pool} {done : Completed},
    done ∈ (completeAll ending flows p).2 → done.flow ∈ flows
  | [], _, _, h => by simp [completeAll] at h
  | flow :: flows, p, done, h => by
    rcases List.mem_append.1 h with h | h
    · rw [flow_of_complete (Option.mem_toList.1 h)]
      exact List.mem_cons_self
    · exact List.mem_cons_of_mem _ (flow_of_completeAll ending flows h)

theorem Mirrors.self (h : Mirrors flow p q) : Mirrors flow q q :=
  ⟨rfl, rfl, h.only, h.part, h.part⟩

theorem Mirrors.completeAll_both (h : Mirrors flow p q) (ending : Ending) {flows part : List Flow}
    (hpart : ∀ f ∈ part, f = flow) (hmem : flow ∈ flows ↔ flow ∈ part) :
    Mirrors flow (Pool.completeAll ending flows p).1 (Pool.completeAll ending part q).1 ∧
      completedOf flow (Pool.completeAll ending flows p).2
        = (Pool.completeAll ending part q).2 := by
  obtain ⟨hin, hout⟩ := h.completeAll ending flows
  obtain ⟨hin', hout'⟩ := h.self.completeAll ending part
  have hdone : completedOf flow (Pool.completeAll ending part q).2
      = (Pool.completeAll ending part q).2 :=
    completedOf_eq_self fun _ hd => hpart _ (flow_of_completeAll ending part hd)
  rw [hdone] at hin' hout'
  -- Both sides mirror the pool in which `flow` alone was completed, or not even that.
  have hboth : ∀ r : Pool, Mirrors flow (Pool.completeAll ending flows p).1 r →
      Mirrors flow (Pool.completeAll ending part q).1 r →
      Mirrors flow (Pool.completeAll ending flows p).1 (Pool.completeAll ending part q).1 := by
    intro r hp hq
    exact ⟨hq.limits.symm.trans hp.limits, hq.stream.symm.trans hp.stream,
      fun e he => h.only e (streams_completeAll_subset ending part q he), hp.whole, hq.whole⟩
  by_cases hm : flow ∈ flows
  · obtain ⟨hp, hpd⟩ := hin hm
    obtain ⟨hq, hqd⟩ := hin' (hmem.1 hm)
    exact ⟨hboth _ hp hq, hpd.trans hqd.symm⟩
  · obtain ⟨hp, hpd⟩ := hout hm
    obtain ⟨hq, hqd⟩ := hout' fun hm' => hm (hmem.2 hm')
    exact ⟨hboth _ hp hq, hpd.trans hqd.symm⟩

theorem Mirrors.flushOlderThan (h : Mirrors flow p q) (cutoff : Nat) :
    Mirrors flow (p.flushOlderThan cutoff).1 (q.flushOlderThan cutoff).1 ∧
      completedOf flow (p.flushOlderThan cutoff).2 = (q.flushOlderThan cutoff).2 := by
  rw [flushOlderThan_eq, flushOlderThan_eq]
  refine h.completeAll_both .idle ?_ ?_
  · intro f hf
    obtain ⟨stream, hs, -⟩ := (mem_idleFlows_iff h.part cutoff).1 hf
    exact h.only _ (mem_of_find? hs)
  · rw [mem_idleFlows_iff h.whole, mem_idleFlows_iff h.part, h.stream]

theorem Mirrors.flushAll (h : Mirrors flow p q) :
    Mirrors flow p.flushAll.1 q.flushAll.1 ∧ completedOf flow p.flushAll.2 = q.flushAll.2 := by
  refine h.completeAll_both .endOfCapture ?_ ?_
  · intro f hf
    obtain ⟨e, he, rfl⟩ := List.mem_map.1 hf
    exact h.only e (q.table_perm.mem_iff.1 he)
  · rw [(p.table_perm.map _).mem_iff, (q.table_perm.map _).mem_iff, ← isSome_find?_iff,
      ← isSome_find?_iff, h.stream]

/-! ### Segments -/

/-- A segment that forces no stream out leaves the pool within its ceiling before that is looked
at. -/
theorem Accounted.assemble_eq (h : p.Accounted) {segment : Segment} {payload : Bytes} {now : Nat}
    {before : Stream} (hs : p.streamFor? segment payload now = some before)
    (he : (p.assemble segment payload now).1.evictions = p.evictions) :
    ∃ after : Stream, after.Accounted ∧ after.waitingPages ≤ p.limits.perStream ∧
      (before.insert segment.start payload segment.fin now).relieve p.limits.perStream = after ∧
      let concluded := (p.keep segment.flow before after).conclude segment.flow
        (ending? segment after)
      concluded.1.pages ≤ p.limits.total ∧
        p.assemble segment payload now = (concluded.1, concluded.2.toList) := by
  obtain ⟨ha, hl⟩ := ((h.streamFor? hs).insert segment.start payload segment.fin now).relieve
    p.limits.perStream
  simp only [Pool.assemble, hs] at he ⊢
  generalize Stream.relieve _ _ = after at ha hl he ⊢
  refine ⟨after, ha, hl, rfl, ?_⟩
  have hc := (h.keep hs ha hl).conclude segment.flow (ending? segment after)
  have hkeep : (p.keep segment.flow before after).evictions = p.evictions := rfl
  have hlimits : (p.keep segment.flow before after).limits = p.limits := rfl
  have hle := hc.pages_le_of_evictions (by rw [he, evictions_conclude, hkeep])
  refine ⟨?_, ?_⟩
  · rwa [limits_conclude, hlimits] at hle
  · rw [enforceTotal_of_le hle, List.append_nil]

theorem Mirrors.keep_self (h : Mirrors flow p q) {segment : Segment} (hflow : segment.flow = flow)
    {payload : Bytes} {now : Nat} {before after : Stream}
    (hs : p.streamFor? segment payload now = some before)
    (hs' : q.streamFor? segment payload now = some before) (ha : after.Accounted)
    (hl : after.waitingPages ≤ p.limits.perStream) :
    Mirrors flow (p.keep flow before after) (q.keep flow before after) where
  limits := h.limits
  stream := by
    unfold Pool.keep find?
    rw [find?_put_self, find?_put_self]
  only e he := by
    rcases mem_put he with rfl | he
    · rfl
    · exact h.only e he
  whole := hflow ▸ h.whole.keep hs ha hl
  part := hflow ▸ h.part.keep hs' ha (h.limits ▸ hl)

theorem Mirrors.keep_other (h : Mirrors flow p q) {segment : Segment} (hflow : segment.flow ≠ flow)
    {payload : Bytes} {now : Nat} {before after : Stream}
    (hs : p.streamFor? segment payload now = some before) (ha : after.Accounted)
    (hl : after.waitingPages ≤ p.limits.perStream) :
    Mirrors flow (p.keep segment.flow before after) q where
  limits := h.limits
  stream := by
    rw [h.stream]
    unfold Pool.keep find?
    rw [find?_put_other hflow]
  only := h.only
  whole := h.whole.keep hs ha hl
  part := h.part

theorem Mirrors.conclude_self (h : Mirrors flow p q) : ∀ ending : Option Ending,
    Mirrors flow (p.conclude flow ending).1 (q.conclude flow ending).1 ∧
      completedOf flow (p.conclude flow ending).2.toList = (q.conclude flow ending).2.toList
  | none => ⟨h, rfl⟩
  | some ending => by
    refine ⟨h.complete_self ending, ?_⟩
    show completedOf flow (p.complete flow ending).2.toList = (q.complete flow ending).2.toList
    rw [completedOf_complete_self, complete_snd_eq h.stream]

theorem Mirrors.conclude_other (h : Mirrors flow p q) (hne : other ≠ flow) :
    ∀ ending : Option Ending, Mirrors flow (p.conclude other ending).1 q ∧
      completedOf flow (p.conclude other ending).2.toList = []
  | none => ⟨h, rfl⟩
  | some ending => ⟨h.complete_other hne ending, completedOf_complete_other hne p ending⟩

theorem Mirrors.assemble_self (h : Mirrors flow p q) {segment : Segment}
    (hflow : segment.flow = flow) {payload : Bytes} {now : Nat}
    (he : (p.assemble segment payload now).1.evictions = p.evictions) :
    Mirrors flow (p.assemble segment payload now).1 (q.assemble segment payload now).1 ∧
      completedOf flow (p.assemble segment payload now).2
        = (q.assemble segment payload now).2 := by
  have hfor : q.streamFor? segment payload now = p.streamFor? segment payload now := by
    unfold streamFor?
    rw [hflow, h.stream]
  rcases hs : p.streamFor? segment payload now with _ | before
  · simp only [Pool.assemble, hfor, hs]
    exact ⟨h, rfl⟩
  · have hs' := hfor.trans hs
    obtain ⟨after, ha, hl, hafter, hpages, hp⟩ := h.whole.assemble_eq hs he
    obtain ⟨hc, hdone⟩ := (h.keep_self hflow hs hs' ha hl).conclude_self (ending? segment after)
    rw [hflow] at hpages hp
    have hle := Nat.le_trans hc.pages_le hpages
    have hq : q.assemble segment payload now
        = (((q.keep flow before after).conclude flow (ending? segment after)).1,
          ((q.keep flow before after).conclude flow (ending? segment after)).2.toList) := by
      simp only [Pool.assemble, hs', h.limits, hafter, hflow]
      rw [enforceTotal_of_le (by rwa [limits_conclude, show (q.keep flow before after).limits
        = p.limits from h.limits]), List.append_nil]
    rw [hp, hq]
    exact ⟨hc, hdone⟩

theorem Mirrors.assemble_other (h : Mirrors flow p q) {segment : Segment}
    (hflow : segment.flow ≠ flow) {payload : Bytes} {now : Nat}
    (he : (p.assemble segment payload now).1.evictions = p.evictions) :
    Mirrors flow (p.assemble segment payload now).1 q ∧
      completedOf flow (p.assemble segment payload now).2 = [] := by
  rcases hs : p.streamFor? segment payload now with _ | before
  · simp only [Pool.assemble, hs]
    exact ⟨h, rfl⟩
  · obtain ⟨after, ha, hl, -, -, hp⟩ := h.whole.assemble_eq hs he
    rw [hp]
    exact (h.keep_other hflow hs ha hl).conclude_other hflow (ending? segment after)

/-! ### Runs -/

/-- A call that forces no stream out does the same to a flow in both pools; one that does not
concern the flow, nothing. -/
theorem Mirrors.call (h : Mirrors flow p q) {c : Call}
    (he : (p.call c).1.evictions = p.evictions) :
    (c.concerns flow = true → Mirrors flow (p.call c).1 (q.call c).1 ∧
      completedOf flow (p.call c).2 = (q.call c).2) ∧
    (c.concerns flow = false → Mirrors flow (p.call c).1 q ∧
      completedOf flow (p.call c).2 = []) := by
  cases c with
  | assemble segment payload now =>
    simp only [Call.concerns, decide_eq_true_eq, decide_eq_false_iff_not]
    exact ⟨fun hflow => h.assemble_self hflow he, fun hflow => h.assemble_other hflow he⟩
  | flushOlderThan cutoff => exact ⟨fun _ => h.flushOlderThan cutoff, by simp [Call.concerns]⟩
  | flushAll => exact ⟨fun _ => h.flushAll, by simp [Call.concerns]⟩
  | list order =>
    exact ⟨by simp [Call.concerns], fun _ => ⟨{ h with whole := { h.whole with } }, rfl⟩⟩

theorem Mirrors.after : ∀ (calls : List Call) {p q : Pool}, Mirrors flow p q →
    (p.after calls).evictions = p.evictions →
      Mirrors flow (p.after calls) (q.after (calls.filter (Call.concerns flow)))
  | [], _, _, h, _ => h
  | c :: calls, p, q, h, he => by
    have hcall := evictions_le_call p c
    have hafter := evictions_le_after calls (p.call c).1
    have he : ((p.call c).1.after calls).evictions = p.evictions := he
    have hrest : ((p.call c).1.after calls).evictions = (p.call c).1.evictions := by omega
    obtain ⟨hself, hother⟩ := h.call (c := c) (by omega)
    rw [List.filter_cons]
    split
    · rename_i hc
      exact Mirrors.after calls (hself hc).1 hrest
    · rename_i hc
      exact Mirrors.after calls (hother (by simpa using hc)).1 hrest

/-- Where no stream is forced out, leaving out all segments of other flows changes nothing for a
flow: at any point of the run its stream is the same, and the next call completes the same streams
of it, of which there are none if that call is left out. -/
theorem flows_isolated (limits : Limits) (calls : List Call) (flow : Flow)
    (he : ((empty limits).after calls).evictions = 0) :
    ∀ before, before <+: calls →
      let p := (empty limits).after before
      let q := (empty limits).after (before.filter (Call.concerns flow))
      q.find? flow = p.find? flow ∧
        ∀ c, before ++ [c] <+: calls →
          completedOf flow (p.call c).2 = if c.concerns flow then (q.call c).2 else [] := by
  intro before hbefore p q
  -- Streams are never taken back from those that were forced out.
  have hnone : ∀ front, front <+: calls → ((empty limits).after front).evictions = 0 := by
    rintro front ⟨later, rfl⟩
    rw [after_append] at he
    have := evictions_le_after later ((empty limits).after front)
    omega
  have hm : Mirrors flow p q := (mirrors_empty limits flow).after before (hnone before hbefore)
  refine ⟨hm.stream, fun c hc => ?_⟩
  have hstep : (p.call c).1.evictions = p.evictions := by
    have hlater := hnone _ hc
    rw [after_append] at hlater
    exact hlater.trans (hnone before hbefore).symm
  obtain ⟨hself, hother⟩ := hm.call hstep
  split
  · rename_i hc
    exact (hself hc).2
  · rename_i hc
    exact (hother (by simpa using hc)).2

/-- Both directions of a conversation, each with a gap, one of them reset before the end. -/
theorem flows_isolated_both_directions :
    let a := Endpoint.v4 ⟨1⟩ 1
    let b := Endpoint.v4 ⟨2⟩ 2
    let before : List Call :=
      [.assemble ⟨a, b, 1, false, false, false⟩ [97] 1,
        .assemble ⟨b, a, 7, false, false, false⟩ [98] 2,
        .assemble ⟨a, b, 3, false, false, false⟩ [99] 3,
        .assemble ⟨b, a, 9, false, false, true⟩ [100] 4,
        .flushOlderThan 3]
    let p := (empty ⟨2, 2⟩).after before
    ((empty ⟨2, 2⟩).after (before ++ [.flushAll])).evictions = 0 ∧
      p.flushAll.2 = [⟨.between a b, [97, 99], .endOfCapture⟩] ∧
      completedOf (.between a b) p.flushAll.2
        = ((empty ⟨2, 2⟩).after
            [.assemble ⟨a, b, 1, false, false, false⟩ [97] 1,
              .assemble ⟨a, b, 3, false, false, false⟩ [99] 3, .flushOlderThan 3]).flushAll.2 := by
  intro a b before p
  have he : ((empty ⟨2, 2⟩).after (before ++ [.flushAll])).evictions = 0 := by decide +kernel
  have hself := (flows_isolated ⟨2, 2⟩ (before ++ [.flushAll]) (.between a b) he before
    (List.prefix_append ..)).2 .flushAll (List.prefix_refl _)
  simp only [Call.concerns, if_true] at hself
  have hkept : before.filter (Call.concerns (.between a b))
      = [.assemble ⟨a, b, 1, false, false, false⟩ [97] 1,
        .assemble ⟨a, b, 3, false, false, false⟩ [99] 3, .flushOlderThan 3] := by decide
  rw [hkept] at hself
  exact ⟨he, by decide +kernel, hself⟩

end Pool

end Trawl.Reassembly
