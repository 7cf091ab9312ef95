import Trawl.Proofs.Reassembly.Isolation

/-!
# Completed streams

A stream leaves bytes when it is completed exactly if it has any, released or waiting
(`Stream.Accounted.finish_ne_nil_iff`). Completing the streams of several flows one after the other
gives what each of them leaves, and takes these streams out of the pool and no other
(`Pool.completeAll_eq`).
-/

namespace Trawl.Reassembly

namespace Stream

variable {s t : Stream}

/-- Whether a stream has any byte, released or waiting. -/
def hasData (s : Stream) : Bool :=
  !s.data.isEmpty || !s.waiting.isEmpty

theorem hasData_iff : s.hasData = true ↔ s.data ≠ [] ∨ s.waiting ≠ [] := by
  simp [hasData]

/-! ### What is released stays released -/

theorem data_prefix_append (s : Stream) (position : UInt32) (segment : Bytes) :
    s.data <+: (s.append position segment).data := by
  unfold append
  dsimp only
  split
  · simp [data]
  · exact List.prefix_refl _

theorem data_prefix_releaseFrom : ∀ (held : List (UInt32 × Bytes)) (s : Stream),
    s.data <+: (s.releaseFrom held).data
  | [], _ => List.prefix_refl _
  | (position, segment) :: later, s => by
    simp only [releaseFrom]
    split
    · exact List.prefix_refl _
    · exact (data_prefix_append { s with waitingPages := s.waitingPages - pagesFor segment.length }
        position segment).trans (data_prefix_releaseFrom later _)

theorem data_prefix_skipGap? (h : s.skipGap? = some t) : s.data <+: t.data := by
  unfold skipGap? at h
  split at h
  · cases h
  · rename_i first _ _ _
    rw [← Option.some.inj h]
    exact data_prefix_releaseFrom s.waiting { s with next := first }

theorem data_prefix_finish (s : Stream) : s.data <+: s.finish := by
  fun_induction finish s with
  | case1 s t ht ih => exact (data_prefix_skipGap? ht).trans ih
  | case2 => exact List.prefix_refl _

/-- A segment that starts at the next byte is released as a whole. -/
theorem data_append_next (s : Stream) (segment : Bytes) :
    (s.append s.next segment).data = s.data ++ segment := by
  simp only [append, UInt32.sub_self, UInt32.toNat_zero, List.drop_zero]
  split
  · simp [data]
  · have : segment = [] := List.eq_nil_of_length_eq_zero (by omega)
    rw [this, List.append_nil]

/-- Behind the first gap that is given up there is a byte. -/
theorem Accounted.data_ne_nil_of_skipGap? (h : s.Accounted) (ht : s.skipGap? = some t) :
    t.data ≠ [] := by
  unfold Stream.skipGap? at ht
  split at ht
  · cases ht
  · rename_i first segment later hw
    have hne : segment ≠ [] := h.nonempty (first, segment) (by simp [hw])
    rw [← Option.some.inj ht, Stream.release, hw, releaseFrom,
      if_neg (by simp [not_isAhead_self])]
    have hfirst := data_append_next { s with
      next := first
      waiting := (first, segment) :: later
      waitingPages := s.waitingPages - pagesFor segment.length } segment
    refine fun hnil => hne (List.append_eq_nil_iff.1 (hfirst.symm.trans ?_)).2
    exact List.prefix_nil.1 (hnil ▸ data_prefix_releaseFrom later _)

theorem Accounted.finish_ne_nil_iff (h : s.Accounted) : s.finish ≠ [] ↔ s.hasData = true := by
  rw [hasData_iff]
  rcases hskip : s.skipGap? with _ | t
  · have hw : s.waiting = [] := by
      unfold Stream.skipGap? at hskip
      split at hskip
      · assumption
      · cases hskip
    simp [finish_of_none hskip, hw]
  · have hw : s.waiting ≠ [] := fun hw => by simp [Stream.skipGap?, hw] at hskip
    have hfinish : s.finish ≠ [] := by
      rw [finish_of_some hskip]
      exact fun hnil => h.data_ne_nil_of_skipGap? hskip
        (List.prefix_nil.1 (hnil ▸ data_prefix_finish t))
    exact iff_of_true hfinish (.inr hw)

theorem Accounted.hasData_of_waitingPages (h : s.Accounted) (hpages : 0 < s.waitingPages) :
    s.hasData = true := by
  refine hasData_iff.2 (.inr fun hw => ?_)
  rw [h.pages, hw] at hpages
  exact Nat.lt_irrefl _ hpages

end Stream

/-- What the stream of a flow leaves when it is completed. -/
def Stream.completed? (flow : Flow) (ending : Reassembly.Ending) (s : Stream) : Option Completed :=
  if s.finish.isEmpty then none else some ⟨flow, s.finish, ending⟩

theorem Stream.Accounted.completed?_eq {s : Stream} (h : s.Accounted) (flow : Flow)
    (ending : Reassembly.Ending) :
    s.completed? flow ending = if s.hasData then some ⟨flow, s.finish, ending⟩ else none := by
  have hiff := h.finish_ne_nil_iff
  unfold Stream.completed?
  by_cases hnil : s.finish = []
  · have hno : ¬ s.hasData = true := fun hyes => hiff.2 hyes hnil
    rw [if_pos (List.isEmpty_iff.2 hnil), if_neg hno]
  · rw [if_neg (mt List.isEmpty_iff.1 hnil), if_pos (hiff.1 hnil)]

namespace Pool

variable {p : Pool} {flow : Flow}

theorem complete_of_find? {s : Stream} (h : p.find? flow = some s) (ending : Ending) :
    p.complete flow ending =
      ({ p with
          streams := without flow p.streams
          pages := p.pages - s.waitingPages }, s.completed? flow ending) := by
  simp only [complete, h]
  rfl

theorem ending_of_complete {ending : Ending} {done : Completed}
    (h : (p.complete flow ending).2 = some done) : done.ending = ending := by
  unfold complete at h
  rcases hf : p.find? flow with _ | stream
  · simp [hf] at h
  · simp only [hf] at h
    split at h
    · cases h
    · rw [← Option.some.inj h]

theorem ending_of_conclude {done : Completed} : ∀ {ending : Option Ending},
    (p.conclude flow ending).2 = some done → ending = some done.ending
  | none, h => by cases h
  | some _, h => congrArg some (ending_of_complete h).symm

theorem ending_of_completeAll (ending : Ending) : ∀ (flows : List Flow) {p : Pool}
    {done : Completed}, done ∈ (completeAll ending flows p).2 → done.ending = ending
  | [], _, _, h => by simp [completeAll] at h
  | flow :: flows, p, done, h => by
    rcases List.mem_append.1 h with h | h
    · exact ending_of_complete (Option.mem_toList.1 h)
    · exact ending_of_completeAll ending flows h

/-- Completing the streams of several flows gives what each of them leaves, in that order, and keeps
the streams of the other flows. -/
theorem completeAll_eq (ending : Ending) : ∀ {idle : List (Flow × Stream)} {p : Pool},
    p.Accounted → idle ⊆ p.streams → (idle.map (·.1)).Nodup →
      (completeAll ending (idle.map (·.1)) p).1.streams
          = p.streams.filter (fun e => e.1 ∉ idle.map (·.1)) ∧
        (completeAll ending (idle.map (·.1)) p).2
          = idle.filterMap fun e => e.2.completed? e.1 ending
  | [], p, _, _, _ => by simp [completeAll]
  | e :: idle, p, h, hsub, hnodup => by
    obtain ⟨hnot, hnodup⟩ := List.nodup_cons.1 (List.map_cons ▸ hnodup)
    have hfind : p.find? e.1 = some e.2 := find?_of_mem h.unique (hsub List.mem_cons_self)
    have hkept : idle ⊆ without e.1 p.streams := by
      intro a ha
      have hne : a.1 ≠ e.1 := fun heq => hnot (heq ▸ List.mem_map_of_mem ha)
      exact List.mem_filter.2 ⟨hsub (List.mem_cons_of_mem _ ha), by simpa using hne⟩
    have hfirst := complete_of_find? hfind ending
    obtain ⟨hstreams, hdone⟩ := completeAll_eq ending (p := (p.complete e.1 ending).1)
      (h.complete e.1 ending) (by rw [hfirst]; exact hkept) hnodup
    simp only [List.map_cons, completeAll]
    refine ⟨?_, ?_⟩
    · rw [hstreams, hfirst, without, List.filter_filter]
      congr 1
      funext a
      by_cases ha : a.1 = e.1 <;> simp [ha]
    · rw [hdone, hfirst, List.filterMap_cons]
      cases e.2.completed? e.1 ending <;> rfl

end Pool

end Trawl.Reassembly
