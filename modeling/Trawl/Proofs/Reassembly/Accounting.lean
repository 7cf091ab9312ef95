import Trawl.Proofs.Reassembly.Calls
import Trawl.Proofs.Reassembly.Waiting

/-!
# The pages of a pool

The pages that a pool counts are those of the segments that wait in its streams, and both ceilings
hold after every call (`Pool.bounded_after`).
-/

namespace Trawl.Reassembly

namespace Pool

/-- Every flow has one stream, each is within its ceiling, and the pages counted are theirs. -/
structure Accounted (p : Pool) : Prop where
  unique : (p.streams.map (·.1)).Nodup
  accounted : ∀ e ∈ p.streams, e.2.Accounted
  perStream : ∀ e ∈ p.streams, e.2.waitingPages ≤ p.limits.perStream
  pages : p.pages = sumOf Stream.waitingPages p.streams

theorem accounted_empty (limits : Limits) : (empty limits).Accounted :=
  ⟨by simp [empty], by simp [empty], by simp [empty], rfl⟩

variable {p : Pool} {flow : Flow}

theorem Accounted.complete (h : p.Accounted) (flow : Flow) (ending : Ending) :
    (p.complete flow ending).1.Accounted := by
  unfold Pool.complete
  split
  · exact h
  · rename_i stream hf
    obtain ⟨e, he, rfl⟩ := Option.map_eq_some_iff.1 hf
    refine ⟨nodup_without h.unique, fun e he => h.accounted e (mem_without he).1,
      fun e he => h.perStream e (mem_without he).1, ?_⟩
    have := sumOf_without Stream.waitingPages h.unique he
    simp only [h.pages]
    omega

theorem Accounted.conclude (h : p.Accounted) (flow : Flow) : ∀ ending : Option Ending,
    (p.conclude flow ending).1.Accounted
  | none => h
  | some ending => h.complete flow ending

theorem Accounted.completeAll (ending : Ending) : ∀ (flows : List Flow) {p : Pool}, p.Accounted →
    (completeAll ending flows p).1.Accounted
  | [], _, h => h
  | flow :: flows, _, h => Accounted.completeAll ending flows (h.complete flow ending)

/-- A segment goes to a live stream or opens a new one. -/
theorem mem_or_start_of_streamFor? {segment : Segment} {payload : Bytes} {now : Nat} {s : Stream}
    (hs : p.streamFor? segment payload now = some s) :
    (segment.flow, s) ∈ p.streams ∨ s = .start segment.start now := by
  unfold streamFor? at hs
  split at hs
  · rename_i stream hf
    obtain rfl := Option.some.inj hs
    exact .inl (mem_of_find? hf)
  · split at hs
    · cases hs
    · exact .inr (Option.some.inj hs).symm

/-- A stream that a segment can go to is accounted, and its pages are among those counted. -/
theorem Accounted.streamFor? (h : p.Accounted) {segment : Segment} {payload : Bytes} {now : Nat}
    {s : Stream} (hs : p.streamFor? segment payload now = some s) : s.Accounted := by
  rcases mem_or_start_of_streamFor? hs with hs | rfl
  · exact h.accounted _ hs
  · exact Stream.accounted_start _ _

/-- The pages that are counted for a stream are counted for what is kept in its place. -/
theorem Accounted.keep (h : p.Accounted) {segment : Segment} {payload : Bytes} {now : Nat}
    {before after : Stream} (hs : p.streamFor? segment payload now = some before)
    (ha : after.Accounted) (hl : after.waitingPages ≤ p.limits.perStream) :
    (p.keep segment.flow before after).Accounted := by
  refine ⟨nodup_put h.unique, fun e he => ?_, fun e he => ?_, ?_⟩
  · rcases mem_put he with rfl | he
    · exact ha
    · exact h.accounted e he
  · rcases mem_put he with rfl | he
    · exact hl
    · exact h.perStream e he
  · unfold Pool.streamFor? at hs
    simp only [Pool.keep, h.pages]
    split at hs
    · rename_i stream hf
      simp only [Option.some.injEq] at hs
      subst hs
      obtain ⟨e, he, rfl⟩ := Option.map_eq_some_iff.1 hf
      have := sumOf_put_old Stream.waitingPages after he
      have := le_sumOf Stream.waitingPages (List.mem_of_find?_eq_some he)
      omega
    · rename_i hf
      split at hs
      · simp at hs
      · simp only [Option.some.injEq] at hs
        subst hs
        have := sumOf_put_new Stream.waitingPages after (Option.map_eq_none_iff.1 hf)
        simp only [this, Stream.start]
        omega

theorem victim?_eq_none (h : p.victim? = none) : sumOf Stream.waitingPages p.streams = 0 := by
  unfold victim? at h
  split at h
  · rename_i hf
    unfold sumOf
    rw [List.sum_eq_zero_iff_forall_eq_nat]
    intro n hn
    obtain ⟨e, he, rfl⟩ := List.mem_map.1 hn
    have := List.filter_eq_nil_iff.1 hf e (p.table_perm.mem_iff.2 he)
    simpa using this
  · simp at h

/-- Forcing out streams ends within the ceiling of all. -/
theorem Accounted.enforceTotal (h : p.Accounted) :
    p.enforceTotal.1.Accounted ∧ p.enforceTotal.1.pages ≤ p.limits.total := by
  fun_induction Pool.enforceTotal p with
  | case1 p hover hv =>
    have := h.pages
    rw [victim?_eq_none hv] at this
    omega
  | case2 p hover flow hv first rest ih =>
    have hc : { p with evictions := p.evictions + 1 }.Accounted :=
      ⟨h.unique, h.accounted, h.perStream, h.pages⟩
    have := ih (hc.complete flow .evicted)
    rwa [limits_complete] at this
  | case3 p hover => exact ⟨h, Nat.not_lt.1 hover⟩

/-- A pool between two calls. -/
structure Bounded (p : Pool) : Prop extends p.Accounted where
  total : p.pages ≤ p.limits.total

theorem pages_complete_le (p : Pool) (flow : Flow) (ending : Ending) :
    (p.complete flow ending).1.pages ≤ p.pages := by
  unfold Pool.complete
  split
  · exact Nat.le_refl _
  · exact Nat.sub_le ..

theorem pages_completeAll_le (ending : Ending) : ∀ (flows : List Flow) (p : Pool),
    (Pool.completeAll ending flows p).1.pages ≤ p.pages
  | [], _ => Nat.le_refl _
  | flow :: flows, p =>
    Nat.le_trans (pages_completeAll_le ending flows _) (pages_complete_le p flow ending)

theorem Bounded.completeAll (h : p.Bounded) (ending : Ending) (flows : List Flow) :
    (Pool.completeAll ending flows p).1.Bounded := by
  refine ⟨h.toAccounted.completeAll ending flows, ?_⟩
  rw [limits_completeAll]
  exact Nat.le_trans (pages_completeAll_le ending flows p) h.total

theorem Bounded.assemble (h : p.Bounded) (segment : Segment) (payload : Bytes) (now : Nat) :
    (p.assemble segment payload now).1.Bounded := by
  simp only [Pool.assemble]
  split
  · exact h
  · rename_i before hs
    obtain ⟨ha, hl⟩ := ((h.streamFor? hs).insert segment.start payload segment.fin now).relieve
      p.limits.perStream
    generalize Stream.relieve _ _ = after at ha hl
    have hk := h.keep hs ha hl
    have he := (hk.conclude segment.flow (ending? segment after)).enforceTotal
    exact ⟨he.1, by simpa [Pool.keep] using he.2⟩

theorem Bounded.call (h : p.Bounded) : ∀ c : Call, (p.call c).1.Bounded
  | .assemble segment payload now => h.assemble segment payload now
  | .flushOlderThan _ => h.completeAll _ _
  | .flushAll => h.completeAll _ _
  | .list _ => { h with }

theorem bounded_after (limits : Limits) (calls : List Call) :
    ((empty limits).after calls).Bounded :=
  after_induction (P := Bounded) (fun _ c h => h.call c) calls _
    ⟨accounted_empty limits, Nat.zero_le _⟩

end Pool

end Trawl.Reassembly
