import Trawl.Proofs.Reassembly.Completion

/-!
# Streams that are forced out

A pool that has taken in a segment (`Pool.takeIn`) may exceed the ceiling of all streams. Then the
stream that has been silent longest among those with waiting pages is forced out (`Pool.ForcesOut`),
and one more as long as the ceiling is exceeded (`Pool.ForcesOutAll`). Each of them leaves the bytes
that completing it at that moment gives, of which there are some, and over a run as many streams
are counted as were completed for that reason (`Pool.forces_out_most_silent`).
-/

namespace Trawl.Reassembly

namespace Pool

variable {p q r : Pool} {flow : Flow} {forced : List Completed}

/-! ### One stream -/

theorem lastSeen_olderOf_le (a b : Flow × Stream) :
    (olderOf a b).2.lastSeen ≤ a.2.lastSeen ∧ (olderOf a b).2.lastSeen ≤ b.2.lastSeen := by
  unfold olderOf
  split <;> omega

theorem lastSeen_foldl_olderOf_le : ∀ (others : List (Flow × Stream)) (entry : Flow × Stream),
    ∀ e ∈ entry :: others, (others.foldl olderOf entry).2.lastSeen ≤ e.2.lastSeen
  | [], entry, e, he => by
    rw [List.mem_singleton.1 he]
    exact Nat.le_refl _
  | b :: more, entry, e, he => by
    have hmore := lastSeen_foldl_olderOf_le more (olderOf entry b)
    have hfirst := hmore _ List.mem_cons_self
    obtain ⟨hentry, hb⟩ := lastSeen_olderOf_le entry b
    rw [List.foldl_cons]
    rcases List.mem_cons.1 he with rfl | he
    · exact Nat.le_trans hfirst hentry
    rcases List.mem_cons.1 he with rfl | he
    · exact Nat.le_trans hfirst hb
    · exact hmore e (List.mem_cons_of_mem _ he)

/-- The victim has waiting pages, and no stream that has some has been silent longer. -/
theorem victim?_spec (h : p.victim? = some flow) :
    ∃ stream, (flow, stream) ∈ p.streams ∧ 0 < stream.waitingPages ∧
      ∀ e ∈ p.streams, 0 < e.2.waitingPages → stream.lastSeen ≤ e.2.lastSeen := by
  unfold victim? at h
  split at h
  · cases h
  · rename_i entry others hwaiting
    have hflow := Option.some.inj h
    have hleast := lastSeen_foldl_olderOf_le others entry
    have hmem := foldl_olderOf_mem others entry
    generalize others.foldl olderOf entry = victim at hflow hleast hmem
    rw [← hwaiting, List.mem_filter, decide_eq_true_eq] at hmem
    rw [← hwaiting] at hleast
    rw [p.table_perm.mem_iff] at hmem
    refine ⟨victim.2, hflow ▸ hmem.1, hmem.2, fun e he hpages => hleast e ?_⟩
    exact List.mem_filter.2 ⟨p.table_perm.mem_iff.2 he, decide_eq_true hpages⟩

/-- The pool `p` exceeds its ceiling, `stream` has been silent longest of those with waiting pages,
and `q` is the pool without it. -/
structure ForcesOut (p : Pool) (flow : Flow) (stream : Stream) (q : Pool) : Prop where
  exceeds : p.limits.total < p.pages
  live : p.find? flow = some stream
  waits : 0 < stream.waitingPages
  mostSilent : ∀ other s, p.find? other = some s → 0 < s.waitingPages →
    stream.lastSeen ≤ s.lastSeen
  leaves : (p.complete flow .evicted).2 = some ⟨flow, stream.finish, .evicted⟩
  nonempty : stream.finish ≠ []
  gone : q.find? flow = none
  others : ∀ other, other ≠ flow → q.find? other = p.find? other
  pages : q.pages + stream.waitingPages = p.pages
  counted : q.evictions = p.evictions + 1
  limits : q.limits = p.limits

theorem Accounted.forcesOut (h : p.Accounted) (hover : p.limits.total < p.pages)
    (hv : p.victim? = some flow) :
    ∃ stream, ForcesOut p flow stream
        ({ p with evictions := p.evictions + 1 }.complete flow .evicted).1 ∧
      ({ p with evictions := p.evictions + 1 }.complete flow .evicted).2
        = some ⟨flow, stream.finish, .evicted⟩ := by
  obtain ⟨stream, hmem, hwaits, hsilent⟩ := victim?_spec hv
  have haccounted := h.accounted _ hmem
  have hlive : p.find? flow = some stream := find?_of_mem h.unique hmem
  have hlive' : { p with evictions := p.evictions + 1 }.find? flow = some stream := hlive
  have hdata := haccounted.hasData_of_waitingPages hwaits
  have hleaves : stream.completed? flow .evicted = some ⟨flow, stream.finish, .evicted⟩ := by
    rw [haccounted.completed?_eq, if_pos hdata]
  have hpages : stream.waitingPages ≤ p.pages := by
    rw [h.pages]
    exact le_sumOf Stream.waitingPages hmem
  refine ⟨stream, ?_, by rw [complete_of_find? hlive', hleaves]⟩
  exact {
    exceeds := hover
    live := hlive
    waits := hwaits
    mostSilent := fun other s hs => hsilent _ (mem_of_find? hs)
    leaves := by rw [complete_of_find? hlive, hleaves]
    nonempty := haccounted.finish_ne_nil_iff.2 hdata
    gone := find?_complete_self ..
    others := fun other hne => find?_complete_other hne.symm ..
    pages := by
      rw [complete_of_find? hlive']
      exact Nat.sub_add_cancel hpages
    counted := by rw [evictions_complete]
    limits := by rw [limits_complete] }

/-! ### One after the other -/

/-- Streams are forced out as long as the ceiling is exceeded, and no longer. -/
inductive ForcesOutAll : Pool → List Completed → Pool → Prop
  | kept {p : Pool} (h : p.pages ≤ p.limits.total) : ForcesOutAll p [] p
  | beyond {p q r : Pool} {flow : Flow} {stream : Stream} {forced : List Completed}
      (first : ForcesOut p flow stream q) (rest : ForcesOutAll q forced r) :
      ForcesOutAll p (⟨flow, stream.finish, .evicted⟩ :: forced) r

theorem Accounted.forcesOutAll (h : p.Accounted) :
    ForcesOutAll p p.enforceTotal.2 p.enforceTotal.1 := by
  fun_induction Pool.enforceTotal p with
  | case1 p hover hv =>
    have hpages := h.pages
    rw [victim?_eq_none hv] at hpages
    omega
  | case2 p hover flow hv first rest ih =>
    have hcounted : { p with evictions := p.evictions + 1 }.Accounted :=
      ⟨h.unique, h.accounted, h.perStream, h.pages⟩
    obtain ⟨stream, hforces, hdone⟩ := h.forcesOut hover hv
    have hrest := ih (hcounted.complete flow .evicted)
    rw [hdone]
    exact .beyond hforces hrest
  | case3 p hover => exact .kept (Nat.not_lt.1 hover)

theorem ForcesOutAll.pages_le (h : ForcesOutAll p forced r) : r.pages ≤ p.limits.total := by
  induction h with
  | kept h => exact h
  | beyond first _ ih => exact first.limits ▸ ih

theorem ForcesOutAll.ending (h : ForcesOutAll p forced r) : ∀ done ∈ forced,
    done.ending = .evicted := by
  induction h with
  | kept => simp
  | beyond _ _ ih => exact List.forall_mem_cons.2 ⟨rfl, ih⟩

theorem ForcesOutAll.counted (h : ForcesOutAll p forced r) :
    r.evictions = p.evictions + forced.length := by
  induction h with
  | kept => rfl
  | beyond first _ ih =>
    rw [ih, first.counted, List.length_cons]
    omega

/-- A stream that is not forced out is left alone. -/
theorem ForcesOutAll.find?_eq (h : ForcesOutAll p forced r)
    (hflow : ∀ done ∈ forced, done.flow ≠ flow) : r.find? flow = p.find? flow := by
  induction h with
  | kept => rfl
  | beyond first _ ih =>
    obtain ⟨hfirst, hrest⟩ := List.forall_mem_cons.1 hflow
    exact (ih hrest).trans (first.others flow hfirst.symm)

/-! ### Segments -/

/-- The pool that has taken in a segment, before the ceiling of all streams is looked at, and the
stream that the segment ends. -/
def takeIn (p : Pool) (segment : Segment) (payload : Bytes) (now : Nat) :
    Pool × Option Completed :=
  match p.streamFor? segment payload now with
  | none => (p, none)
  | some before =>
    let after :=
      (before.insert segment.start payload segment.fin now).relieve p.limits.perStream
    (p.keep segment.flow before after).conclude segment.flow (ending? segment after)

variable {segment : Segment} {payload : Bytes} {now : Nat}

theorem Bounded.assemble_eq_takeIn (h : p.Bounded) :
    p.assemble segment payload now =
      ((p.takeIn segment payload now).1.enforceTotal.1,
        (p.takeIn segment payload now).2.toList ++
          (p.takeIn segment payload now).1.enforceTotal.2) := by
  unfold Pool.assemble takeIn
  rcases p.streamFor? segment payload now with _ | before
  · simp [enforceTotal_of_le h.total]
  · rfl

theorem Accounted.takeIn (h : p.Accounted) : (p.takeIn segment payload now).1.Accounted := by
  unfold Pool.takeIn
  rcases hs : p.streamFor? segment payload now with _ | before
  · exact h
  · obtain ⟨ha, hl⟩ := ((h.streamFor? hs).insert segment.start payload segment.fin now).relieve
      p.limits.perStream
    exact (h.keep hs ha hl).conclude ..

theorem evictions_takeIn (p : Pool) (segment : Segment) (payload : Bytes) (now : Nat) :
    (p.takeIn segment payload now).1.evictions = p.evictions := by
  unfold takeIn
  rcases p.streamFor? segment payload now with _ | before
  · rfl
  · exact evictions_conclude ..

theorem ending?_ne_evicted (segment : Segment) (s : Stream) :
    ending? segment s ≠ some .evicted := by
  unfold ending?
  split
  · simp
  · split <;> simp

theorem ending_of_takeIn {done : Completed} (h : done ∈ (p.takeIn segment payload now).2) :
    done.ending ≠ .evicted := by
  unfold takeIn at h
  rcases hs : p.streamFor? segment payload now with _ | before
  · simp [hs] at h
  · simp only [hs, Option.mem_def] at h
    intro he
    exact ending?_ne_evicted segment _ (he ▸ ending_of_conclude h)

/-! ### Runs -/

/-- How many of the completed streams were forced out. -/
def countForced (done : List Completed) : Nat :=
  done.countP (·.ending = .evicted)

theorem countForced_append (done more : List Completed) :
    countForced (done ++ more) = countForced done + countForced more :=
  List.countP_append

theorem countForced_eq_zero {done : List Completed} (h : ∀ d ∈ done, d.ending ≠ .evicted) :
    countForced done = 0 :=
  List.countP_eq_zero.2 fun d hd => by simpa using h d hd

/-- The streams that a run of calls completes, in order. -/
def completions (p : Pool) : List Call → List Completed
  | [] => []
  | c :: later => (p.call c).2 ++ (p.call c).1.completions later

theorem Bounded.evictions_call (h : p.Bounded) : ∀ c : Call,
    (p.call c).1.evictions = p.evictions + countForced (p.call c).2
  | .assemble segment payload now => by
    have htaken : (p.takeIn segment payload now).1.Accounted := h.toAccounted.takeIn
    have hforces := htaken.forcesOutAll
    have hended : countForced (p.takeIn segment payload now).2.toList = 0 :=
      countForced_eq_zero fun d hd => ending_of_takeIn (Option.mem_toList.1 hd)
    have hforced : countForced (p.takeIn segment payload now).1.enforceTotal.2 =
        (p.takeIn segment payload now).1.enforceTotal.2.length :=
      List.countP_eq_length.2 fun d hd => by simpa using hforces.ending d hd
    rw [Pool.call, h.assemble_eq_takeIn, countForced_append, hended, hforced, Nat.zero_add,
      hforces.counted, evictions_takeIn]
  | .flushOlderThan cutoff => by
    have hnone : countForced (p.flushOlderThan cutoff).2 = 0 := countForced_eq_zero fun d hd => by
      rw [ending_of_completeAll _ _ hd]
      simp
    rw [Pool.call, hnone]
    exact evictions_completeAll ..
  | .flushAll => by
    have hnone : countForced p.flushAll.2 = 0 := countForced_eq_zero fun d hd => by
      rw [ending_of_completeAll _ _ hd]
      simp
    rw [Pool.call, hnone]
    exact evictions_completeAll ..
  | .list _ => rfl

theorem Bounded.evictions_after : ∀ (calls : List Call) {p : Pool}, p.Bounded →
    (p.after calls).evictions = p.evictions + countForced (p.completions calls)
  | [], _, _ => rfl
  | c :: later, p, h => by
    have hlater := Bounded.evictions_after later (h.call c)
    rw [h.evictions_call c] at hlater
    show ((p.call c).1.after later).evictions = _
    rw [hlater, completions, countForced_append, Nat.add_assoc]

/-- After any run, a segment forces out streams exactly as long as the pool that has taken it in
exceeds its ceiling, each time the one that has been silent longest of those with waiting pages; the
other streams are left alone. Those forced out so far have been counted. -/
theorem forces_out_most_silent (limits : Limits) (calls : List Call) :
    let p := (empty limits).after calls
    (∀ segment payload now,
      let taken := p.takeIn segment payload now
      let result := p.assemble segment payload now
      ∃ forced, ForcesOutAll taken.1 forced result.1 ∧
        result.2 = taken.2.toList ++ forced ∧
        (∀ done ∈ taken.2, done.ending ≠ .evicted) ∧
        ∀ flow, (∀ done ∈ forced, done.flow ≠ flow) →
          result.1.find? flow = taken.1.find? flow) ∧
      p.evictions = countForced ((empty limits).completions calls) := by
  intro p
  have hempty : (empty limits).Bounded := ⟨accounted_empty limits, Nat.zero_le _⟩
  have h : p.Bounded := bounded_after limits calls
  refine ⟨fun segment payload now => ?_, ?_⟩
  · have htaken : (p.takeIn segment payload now).1.Accounted := h.toAccounted.takeIn
    have hforces := htaken.forcesOutAll
    rw [h.assemble_eq_takeIn]
    exact ⟨_, hforces, rfl, fun done => ending_of_takeIn, fun flow => hforces.find?_eq⟩
  · have hrun := hempty.evictions_after calls
    rw [show (empty limits).evictions = 0 from rfl, Nat.zero_add] at hrun
    exact hrun

/-- Two streams with a page each, and a segment of two pages for a third one: both are forced out,
the one that has been silent longer first. -/
theorem forces_out_both :
    let a := Endpoint.v4 ⟨1⟩ 1
    let b := Endpoint.v4 ⟨2⟩ 2
    let c := Endpoint.v4 ⟨3⟩ 3
    let calls : List Call :=
      [.assemble ⟨a, c, 1, false, false, false⟩ [97] 3,
        .assemble ⟨b, c, 1, false, false, false⟩ [98] 1,
        .assemble ⟨c, a, 1, true, false, false⟩ [] 2,
        .assemble ⟨b, c, 3, false, false, false⟩ [100] 4,
        .assemble ⟨a, c, 3, false, false, false⟩ [99] 5]
    let segment : Segment := ⟨c, a, 5, false, false, false⟩
    let payload : Bytes := List.replicate 1901 101
    let p := (empty ⟨2, 2⟩).after calls
    ∃ forced, ForcesOutAll (p.takeIn segment payload 6).1 forced (p.assemble segment payload 6).1 ∧
      forced = [⟨.between b c, [98, 100], .evicted⟩, ⟨.between a c, [97, 99], .evicted⟩] ∧
      ((p.assemble segment payload 6).1.find? (.between c a)).map (·.waitingPages) = some 2 := by
  intro a b c calls segment payload p
  obtain ⟨forced, hforces, hdone, -, -⟩ :=
    (forces_out_most_silent ⟨2, 2⟩ calls).1 segment payload 6
  have hnone : (p.takeIn segment payload 6).2 = none := by decide +kernel
  have hall : (p.assemble segment payload 6).2 =
      [⟨.between b c, [98, 100], .evicted⟩, ⟨.between a c, [97, 99], .evicted⟩] := by
    decide +kernel
  refine ⟨forced, hforces, ?_, by decide +kernel⟩
  change (p.assemble segment payload 6).2 = (p.takeIn segment payload 6).2.toList ++ forced at hdone
  rw [hnone, hall] at hdone
  exact hdone.symm

end Pool

end Trawl.Reassembly
