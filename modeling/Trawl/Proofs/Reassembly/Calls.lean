import Mathlib.Algebra.GroupWithZero.Nat
import Trawl.Reassembly.Pool

/-!
# Runs of a pool

What a pool is asked to do, one call after the other (`Pool.after`), and how the live streams change
under it: every flow has at most one, and whatever is summed over the streams follows what is put in
and taken out.
-/

namespace Trawl.Reassembly

/-- What a pool can be asked to do, and what its table may do by itself. -/
inductive Call where
  | assemble (segment : Segment) (payload : Bytes) (now : Nat)
  | flushOlderThan (cutoff : Nat)
  | flushAll
  /-- The table goes over to another order. -/
  | list (order : List Flow)
  deriving DecidableEq, Repr

namespace Pool

/-- What a call leads to, and the streams that it completes. -/
def call (p : Pool) : Call → Pool × List Completed
  | .assemble segment payload now => p.assemble segment payload now
  | .flushOlderThan cutoff => p.flushOlderThan cutoff
  | .flushAll => p.flushAll
  | .list order => (p.listed order, [])

/-- The flows of the streams that have been silent since before `cutoff`, the most silent first. -/
def idleFlows (p : Pool) (cutoff : Nat) : List Flow :=
  ((p.table.filter (·.2.lastSeen < cutoff)).mergeSort fun a b =>
    a.2.lastSeen ≤ b.2.lastSeen).map (·.1)

theorem flushOlderThan_eq (p : Pool) (cutoff : Nat) :
    p.flushOlderThan cutoff = completeAll .idle (p.idleFlows cutoff) p := rfl

/-- The pool after a run of calls. -/
def after (p : Pool) (calls : List Call) : Pool :=
  calls.foldl (fun p c => (p.call c).1) p

theorem after_induction {P : Pool → Prop} (hstep : ∀ p c, P p → P (p.call c).1) :
    ∀ (calls : List Call) (p : Pool), P p → P (p.after calls)
  | [], _, h => h
  | c :: calls, p, h => after_induction hstep calls _ (hstep p c h)

theorem after_append (p : Pool) (calls more : List Call) :
    p.after (calls ++ more) = (p.after calls).after more :=
  List.foldl_append

/-! ### The ceilings -/

@[simp] theorem limits_complete (p : Pool) (flow : Flow) (ending : Ending) :
    (p.complete flow ending).1.limits = p.limits := by
  unfold complete
  split <;> rfl

@[simp] theorem limits_completeAll (ending : Ending) : ∀ (flows : List Flow) (p : Pool),
    (completeAll ending flows p).1.limits = p.limits
  | [], _ => rfl
  | flow :: flows, p => (limits_completeAll ending flows _).trans (limits_complete p flow ending)

@[simp] theorem limits_conclude (p : Pool) (flow : Flow) (ending : Option Ending) :
    (p.conclude flow ending).1.limits = p.limits := by
  cases ending
  · rfl
  · exact limits_complete ..

@[simp] theorem limits_enforceTotal (p : Pool) : p.enforceTotal.1.limits = p.limits := by
  fun_induction enforceTotal p with
  | case1 => rfl
  | case2 p _ flow _ first rest ih => exact ih.trans (limits_complete ..)
  | case3 => rfl

@[simp] theorem limits_call (p : Pool) (c : Call) : (p.call c).1.limits = p.limits := by
  cases c with
  | assemble segment payload now =>
    simp only [call, assemble]
    split
    · rfl
    · simp [keep]
  | flushOlderThan cutoff => exact limits_completeAll ..
  | flushAll => exact limits_completeAll ..
  | list order => rfl

@[simp] theorem limits_after (p : Pool) (calls : List Call) : (p.after calls).limits = p.limits :=
  after_induction (P := fun q => q.limits = p.limits) (fun q c h => (limits_call q c).trans h)
    calls p rfl

/-! ### The order of the table -/

@[simp] theorem order_complete (p : Pool) (flow : Flow) (ending : Ending) :
    (p.complete flow ending).1.order = p.order := by
  unfold complete
  split <;> rfl

@[simp] theorem order_completeAll (ending : Ending) : ∀ (flows : List Flow) (p : Pool),
    (completeAll ending flows p).1.order = p.order
  | [], _ => rfl
  | flow :: flows, p => (order_completeAll ending flows _).trans (order_complete p flow ending)

/-! ### What is forced out -/

@[simp] theorem evictions_complete (p : Pool) (flow : Flow) (ending : Ending) :
    (p.complete flow ending).1.evictions = p.evictions := by
  unfold complete
  split <;> rfl

@[simp] theorem evictions_conclude (p : Pool) (flow : Flow) : ∀ ending : Option Ending,
    (p.conclude flow ending).1.evictions = p.evictions
  | none => rfl
  | some ending => evictions_complete p flow ending

@[simp] theorem evictions_completeAll (ending : Ending) : ∀ (flows : List Flow) (p : Pool),
    (completeAll ending flows p).1.evictions = p.evictions
  | [], _ => rfl
  | flow :: flows, p =>
    (evictions_completeAll ending flows _).trans (evictions_complete p flow ending)

theorem enforceTotal_of_le {p : Pool} (h : p.pages ≤ p.limits.total) :
    p.enforceTotal = (p, []) := by
  unfold enforceTotal
  rw [if_neg (Nat.not_lt.2 h)]

theorem enforceTotal_of_none {p : Pool} (h : p.victim? = none) : p.enforceTotal = (p, []) := by
  unfold enforceTotal
  split
  · split
    · rfl
    · rename_i flow hv
      simp [h] at hv
  · rfl

theorem enforceTotal_of_some {p : Pool} {flow : Flow} (h : p.limits.total < p.pages)
    (hv : p.victim? = some flow) :
    p.enforceTotal =
      let first := { p with evictions := p.evictions + 1 }.complete flow .evicted
      let rest := first.1.enforceTotal
      (rest.1, first.2.toList ++ rest.2) := by
  rw [enforceTotal, if_pos h]
  split
  · rename_i hnone
    simp [hv] at hnone
  · rename_i flow' hv'
    rw [hv, Option.some.injEq] at hv'
    rw [hv']

/-! ### The live streams -/

section Streams

variable {flow : Flow} {stream : Stream}

theorem mem_put {e : Flow × Stream} : ∀ {streams : List (Flow × Stream)},
    e ∈ put flow stream streams → e = (flow, stream) ∨ e ∈ streams
  | [], h => by simpa [put] using h
  | a :: others, h => by
    simp only [put] at h
    split at h
    · exact (List.mem_cons.1 h).imp_right (List.mem_cons_of_mem _)
    · rcases List.mem_cons.1 h with rfl | h
      · exact .inr List.mem_cons_self
      · exact (mem_put h).imp_right (List.mem_cons_of_mem _)

theorem mem_of_find? {p : Pool} (h : p.find? flow = some stream) : (flow, stream) ∈ p.streams := by
  obtain ⟨e, he, rfl⟩ := Option.map_eq_some_iff.1 h
  have hk : e.1 = flow := by simpa using List.find?_some he
  rw [← hk]
  exact List.mem_of_find?_eq_some he

theorem nodup_put : ∀ {streams : List (Flow × Stream)}, (streams.map (·.1)).Nodup →
    ((put flow stream streams).map (·.1)).Nodup
  | [], _ => by simp [put]
  | a :: others, h => by
    simp only [List.map_cons, List.nodup_cons] at h
    simp only [put]
    split
    · rename_i heq
      simpa [← heq] using h
    · rename_i hne
      simp only [List.map_cons, List.nodup_cons]
      refine ⟨fun hm => ?_, nodup_put h.2⟩
      obtain ⟨e, he, hk⟩ := List.mem_map.1 hm
      rcases mem_put he with rfl | he
      · exact hne hk.symm
      · exact h.1 (hk ▸ List.mem_map_of_mem he)

theorem nodup_without {streams : List (Flow × Stream)} (h : (streams.map (·.1)).Nodup) :
    ((without flow streams).map (·.1)).Nodup :=
  (List.Sublist.map _ List.filter_sublist).nodup h

theorem mem_without {e : Flow × Stream} {streams : List (Flow × Stream)}
    (h : e ∈ without flow streams) : e ∈ streams ∧ e.1 ≠ flow := by
  simpa [without] using h

variable (f : Stream → Nat)

/-- What `f` comes to over all streams. -/
def sumOf (streams : List (Flow × Stream)) : Nat :=
  (streams.map fun e => f e.2).sum

theorem sumOf_cons (e : Flow × Stream) (streams : List (Flow × Stream)) :
    sumOf f (e :: streams) = f e.2 + sumOf f streams := by
  simp [sumOf]

theorem le_sumOf {e : Flow × Stream} : ∀ {streams : List (Flow × Stream)}, e ∈ streams →
    f e.2 ≤ sumOf f streams
  | a :: others, h => by
    rw [sumOf_cons]
    rcases List.mem_cons.1 h with rfl | h
    · exact Nat.le_add_right ..
    · exact Nat.le_add_left_of_le (le_sumOf h)

theorem sumOf_le {g : Stream → Nat} : ∀ {streams : List (Flow × Stream)},
    (∀ e ∈ streams, f e.2 ≤ g e.2) → sumOf f streams ≤ sumOf g streams
  | [], _ => by simp [sumOf]
  | a :: others, h => by
    rw [sumOf_cons, sumOf_cons]
    exact Nat.add_le_add (h a List.mem_cons_self)
      (sumOf_le fun e he => h e (List.mem_cons_of_mem _ he))

theorem sumOf_add (g : Stream → Nat) : ∀ streams : List (Flow × Stream),
    sumOf (fun s => f s + g s) streams = sumOf f streams + sumOf g streams
  | [] => by simp [sumOf]
  | a :: others => by
    rw [sumOf_cons, sumOf_cons, sumOf_cons, sumOf_add g others]
    omega

theorem sumOf_without_le (flow : Flow) : ∀ streams : List (Flow × Stream),
    sumOf f (without flow streams) ≤ sumOf f streams
  | [] => Nat.le_refl _
  | a :: others => by
    have ih := sumOf_without_le flow others
    unfold without at ih ⊢
    rw [List.filter_cons, sumOf_cons]
    split
    · rw [sumOf_cons]
      omega
    · omega

theorem sumOf_mul (n : Nat) : ∀ streams : List (Flow × Stream),
    sumOf (fun s => f s * n) streams = sumOf f streams * n
  | [] => by simp [sumOf]
  | a :: others => by
    rw [sumOf_cons, sumOf_cons, sumOf_mul n others, Nat.add_mul]

theorem sumOf_put_new (stream : Stream) : ∀ {streams : List (Flow × Stream)},
    streams.find? (·.1 = flow) = none →
      sumOf f (put flow stream streams) = sumOf f streams + f stream
  | [], _ => by simp [put, sumOf]
  | a :: others, h => by
    rw [List.find?_cons] at h
    split at h
    · simp at h
    · rename_i hne
      simp only [decide_eq_false_iff_not] at hne
      rw [put, if_neg hne, sumOf_cons, sumOf_cons, sumOf_put_new stream h]
      omega

theorem sumOf_put_old (stream : Stream) {e : Flow × Stream} : ∀ {streams : List (Flow × Stream)},
    streams.find? (·.1 = flow) = some e →
      sumOf f (put flow stream streams) + f e.2 = sumOf f streams + f stream
  | [], h => by simp at h
  | a :: others, h => by
    rw [List.find?_cons] at h
    split at h
    · rename_i heq
      simp only [decide_eq_true_eq] at heq
      simp only [Option.some.injEq] at h
      subst h
      rw [put, if_pos heq, sumOf_cons, sumOf_cons]
      show f stream + sumOf f others + f a.2 = _
      omega
    · rename_i hne
      simp only [decide_eq_false_iff_not] at hne
      have ih := sumOf_put_old stream h
      rw [put, if_neg hne, sumOf_cons, sumOf_cons]
      omega

theorem sumOf_without {e : Flow × Stream} : ∀ {streams : List (Flow × Stream)},
    (streams.map (·.1)).Nodup → streams.find? (·.1 = flow) = some e →
      sumOf f (without flow streams) + f e.2 = sumOf f streams
  | [], _, h => by simp at h
  | a :: others, hn, h => by
    simp only [List.map_cons, List.nodup_cons] at hn
    rw [List.find?_cons] at h
    split at h
    · rename_i heq
      simp only [decide_eq_true_eq] at heq
      simp only [Option.some.injEq] at h
      subst h
      have hrest : without flow others = others := List.filter_eq_self.2 fun b hb => by
        simp only [ne_eq, decide_not, Bool.not_eq_eq_eq_not, Bool.not_true, decide_eq_false_iff_not]
        rintro hb'
        exact hn.1 (heq ▸ hb' ▸ List.mem_map_of_mem hb)
      have hdrop : without flow (a :: others) = without flow others := by
        simp [without, heq]
      rw [hdrop, hrest, sumOf_cons]
      omega
    · rename_i hne
      simp only [decide_eq_false_iff_not] at hne
      have hkeep : without flow (a :: others) = a :: without flow others := by
        simp [without, hne]
      have ih := sumOf_without hn.2 h
      rw [hkeep, sumOf_cons, sumOf_cons]
      omega

end Streams

end Pool

end Trawl.Reassembly
