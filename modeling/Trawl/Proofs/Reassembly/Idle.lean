import Trawl.Proofs.Reassembly.Completion

/-!
# Sweeping idle streams

A sweep completes the streams that have been silent since before a cutoff, the most silent first,
and leaves the others as they are (`Pool.Accounted.flushOlderThan_eq`). Each of them that has any
byte is given out once, and a second sweep with the same cutoff finds none
(`Pool.idle_streams_completed_once`).
-/

namespace Trawl.Reassembly

namespace Pool

variable {p : Pool}

/-- The streams that have been silent since before `cutoff`, the most silent first. -/
def idle (p : Pool) (cutoff : Nat) : List (Flow × Stream) :=
  (p.table.filter (·.2.lastSeen < cutoff)).mergeSort fun a b => a.2.lastSeen ≤ b.2.lastSeen

theorem idleFlows_eq (p : Pool) (cutoff : Nat) :
    p.idleFlows cutoff = (p.idle cutoff).map (·.1) := rfl

theorem idle_perm (p : Pool) (cutoff : Nat) :
    (p.idle cutoff).Perm (p.streams.filter (·.2.lastSeen < cutoff)) :=
  (List.mergeSort_perm ..).trans (p.table_perm.filter _)

theorem mem_idle {cutoff : Nat} {e : Flow × Stream} :
    e ∈ p.idle cutoff ↔ e ∈ p.streams ∧ e.2.lastSeen < cutoff := by
  simp [(idle_perm p cutoff).mem_iff]

theorem pairwise_idle (p : Pool) (cutoff : Nat) :
    (p.idle cutoff).Pairwise fun a b => a.2.lastSeen ≤ b.2.lastSeen := by
  have hsorted : (p.idle cutoff).Pairwise fun a b =>
      decide (a.2.lastSeen ≤ b.2.lastSeen) = true := by
    refine List.pairwise_mergeSort (fun a b c hab hbc => ?_) (fun a b => ?_) _
    · rw [decide_eq_true_eq] at hab hbc ⊢
      exact Nat.le_trans hab hbc
    · rw [Bool.or_eq_true, decide_eq_true_eq, decide_eq_true_eq]
      exact Nat.le_total ..
  exact hsorted.imp of_decide_eq_true

theorem nodup_idle (h : p.Accounted) (cutoff : Nat) : ((p.idle cutoff).map (·.1)).Nodup := by
  rw [((idle_perm p cutoff).map (·.1)).nodup_iff]
  exact (List.filter_sublist.map _).nodup h.unique

/-- The streams of the flows that are not idle are those that have been heard since the cutoff. -/
theorem filter_not_idle (h : p.Accounted) (cutoff : Nat) :
    p.streams.filter (fun e => e.1 ∉ (p.idle cutoff).map (·.1))
      = p.streams.filter (cutoff ≤ ·.2.lastSeen) := by
  refine List.filter_congr fun e he => ?_
  rw [decide_eq_decide, ← Nat.not_lt, not_iff_not, List.mem_map]
  constructor
  · rintro ⟨a, ha, heq⟩
    obtain ⟨hmem, hlast⟩ := mem_idle.1 ha
    rwa [← List.inj_on_of_nodup_map h.unique hmem he heq]
  · exact fun hlast => ⟨e, mem_idle.2 ⟨he, hlast⟩, rfl⟩

/-- What the streams of flows leave, for those that have any byte. -/
theorem filterMap_completed? (ending : Ending) : ∀ {streams : List (Flow × Stream)},
    (∀ e ∈ streams, e.2.Accounted) →
      streams.filterMap (fun e => e.2.completed? e.1 ending)
        = (streams.filter (·.2.hasData)).map fun e => ⟨e.1, e.2.finish, ending⟩
  | [], _ => rfl
  | e :: others, h => by
    obtain ⟨he, hothers⟩ := List.forall_mem_cons.1 h
    rw [List.filterMap_cons, List.filter_cons, filterMap_completed? ending hothers,
      he.completed?_eq]
    cases e.2.hasData <;> rfl

theorem Accounted.flushOlderThan_eq (h : p.Accounted) (cutoff : Nat) :
    p.flushOlderThan cutoff =
      ({ p with
          streams := p.streams.filter (cutoff ≤ ·.2.lastSeen)
          pages := sumOf Stream.waitingPages (p.streams.filter (cutoff ≤ ·.2.lastSeen)) },
        ((p.idle cutoff).filter (·.2.hasData)).map fun e => ⟨e.1, e.2.finish, .idle⟩) := by
  have hsub : p.idle cutoff ⊆ p.streams := fun e he => (mem_idle.1 he).1
  obtain ⟨hstreams, hdone⟩ := completeAll_eq .idle h hsub (nodup_idle h cutoff)
  rw [filter_not_idle h] at hstreams
  rw [filterMap_completed? .idle fun e he => h.accounted e (hsub he)] at hdone
  have hpages := (h.completeAll .idle ((p.idle cutoff).map (·.1))).pages
  rw [hstreams] at hpages
  have heta : (p.flushOlderThan cutoff).1 = ⟨(p.flushOlderThan cutoff).1.limits,
      (p.flushOlderThan cutoff).1.streams, (p.flushOlderThan cutoff).1.order,
      (p.flushOlderThan cutoff).1.pages, (p.flushOlderThan cutoff).1.evictions⟩ := rfl
  refine Prod.ext ?_ hdone
  rw [heta, Pool.mk.injEq]
  exact ⟨limits_completeAll .., hstreams, order_completeAll .., hpages, evictions_completeAll ..⟩

/-- A sweep of a pool without idle streams does nothing. -/
theorem flushOlderThan_of_idle_eq_nil {cutoff : Nat} (h : p.idle cutoff = []) :
    p.flushOlderThan cutoff = (p, []) := by
  rw [flushOlderThan_eq, idleFlows_eq, h]
  rfl

/-- So does one of a pool whose streams have all been heard since. -/
theorem flushOlderThan_of_heard {cutoff : Nat}
    (h : (p.streams.all fun entry => cutoff ≤ entry.2.lastSeen) = true) :
    p.flushOlderThan cutoff = (p, []) := by
  have hnone : p.streams.filter (·.2.lastSeen < cutoff) = [] := by
    rw [List.filter_eq_nil_iff]
    intro entry hentry
    have := List.all_eq_true.1 h entry hentry
    simp only [decide_eq_true_eq] at this ⊢
    omega
  exact flushOlderThan_of_idle_eq_nil (hnone ▸ idle_perm p cutoff).eq_nil

/-- After any run, a sweep gives out each idle stream that has a byte, released or waiting, once and
with what finishing it gives, the most silent first. It keeps the other streams as they are and
counts their pages, and a second sweep with the same cutoff does nothing. -/
theorem idle_streams_completed_once (limits : Limits) (calls : List Call) (cutoff : Nat) :
    let p := (empty limits).after calls
    let swept := (p.flushOlderThan cutoff).1
    let done := (p.flushOlderThan cutoff).2
    (∃ idle : List (Flow × Stream),
        idle.Perm (p.streams.filter (·.2.lastSeen < cutoff)) ∧
        idle.Pairwise (fun a b => a.2.lastSeen ≤ b.2.lastSeen) ∧ (idle.map (·.1)).Nodup ∧
        done = (idle.filter (·.2.hasData)).map fun e => ⟨e.1, e.2.finish, .idle⟩) ∧
      (∀ d ∈ done, d.data ≠ []) ∧
      swept = { p with
        streams := p.streams.filter (cutoff ≤ ·.2.lastSeen)
        pages := sumOf Stream.waitingPages swept.streams } ∧
      swept.flushOlderThan cutoff = (swept, []) := by
  intro p swept done
  have h : p.Accounted := (bounded_after limits calls).toAccounted
  have hflush := h.flushOlderThan_eq cutoff
  have hswept : swept = _ := congrArg Prod.fst hflush
  have hdone : done = _ := congrArg Prod.snd hflush
  refine ⟨⟨p.idle cutoff, idle_perm .., pairwise_idle .., nodup_idle h cutoff, hdone⟩, ?_, ?_, ?_⟩
  · intro d hd
    rw [hdone] at hd
    obtain ⟨e, he, rfl⟩ := List.mem_map.1 hd
    obtain ⟨hmem, hdata⟩ := List.mem_filter.1 he
    exact (h.accounted e (mem_idle.1 hmem).1).finish_ne_nil_iff.2 hdata
  · rw [hswept]
  · have hnone : swept.idle cutoff = [] := by
      refine List.eq_nil_iff_forall_not_mem.2 fun e he => ?_
      obtain ⟨hmem, hlast⟩ := mem_idle.1 he
      rw [hswept] at hmem
      have := (List.mem_filter.1 hmem).2
      simp only [decide_eq_true_eq] at this
      omega
    exact flushOlderThan_of_idle_eq_nil hnone

/-- Of four streams, one has no byte, one has a byte that waits, and one was heard at the cutoff. -/
example :
    let a := Endpoint.v4 ⟨1⟩ 1
    let b := Endpoint.v4 ⟨2⟩ 2
    let c := Endpoint.v4 ⟨3⟩ 3
    let p := (empty ⟨2, 2⟩).after
      [.assemble ⟨a, b, 1, true, false, false⟩ [] 1, .assemble ⟨a, c, 1, true, false, false⟩ [] 2,
        .assemble ⟨a, c, 5, false, false, false⟩ [99] 3,
        .assemble ⟨b, c, 1, false, false, false⟩ [98] 2,
        .assemble ⟨c, b, 1, false, false, false⟩ [97] 4]
    (p.flushOlderThan 4).2 = [⟨.between b c, [98], .idle⟩, ⟨.between a c, [99], .idle⟩] ∧
      (p.flushOlderThan 4).1.streams.map (·.1) = [.between c b] := by
  cbv

end Pool

end Trawl.Reassembly
