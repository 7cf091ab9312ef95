import Trawl.Proofs.Reassembly.Accounting

/-!
# Counters that never go below zero

A stream counts its waiting pages and a pool counts those of all its streams, and both counters are
lowered by subtraction. Here the operations are given with the way in which they lower a counter,
which may refuse to, as `lower?` does where it would have to subtract more than there is. Between two
calls of a run every way will do that subtracts where there is enough: the next call does what it does
with plain subtraction (`Pool.Accounted.callBy`, `Pool.counters_exact`).

How many segments are left to wait does not depend on the counters, which is why giving up gaps ends
whatever the way.
-/

namespace Trawl.Reassembly

/-- A counter lowered by some pages, unless it counts fewer. -/
def lower? (counter pages : Nat) : Option Nat :=
  if pages ≤ counter then some (counter - pages) else none

/-- Whether a way to lower counters subtracts where it does not get below zero. -/
def Subtracts (lower : Nat → Nat → Option Nat) : Prop :=
  ∀ counter pages, pages ≤ counter → lower counter pages = some (counter - pages)

theorem subtracts_lower? : Subtracts lower? :=
  fun _ _ h => if_pos h

variable (lower : Nat → Nat → Option Nat)

/-! ### Streams -/

namespace Stream

/-- `releaseFrom`, which takes the pages of every segment that it releases off the counter. -/
def releaseFromBy (s : Stream) : List (UInt32 × Bytes) → Option Stream
  | [] => some { s with waiting := [] }
  | (position, segment) :: later =>
    if isAhead position s.next then some { s with waiting := (position, segment) :: later }
    else
      (lower s.waitingPages (pagesFor segment.length)).bind fun waitingPages =>
        ({ s with waitingPages }.append position segment).releaseFromBy later

/-- `hold`, which takes the pages of the shorter segment at the position off the counter. -/
def holdBy (s : Stream) (position : UInt32) (segment : Bytes) : Option Stream :=
  let pages := pagesFor segment.length
  match s.waitingAt? position with
  | some held =>
    if segment.length ≤ held.length then some s
    else
      (lower s.waitingPages (pagesFor held.length)).map fun others =>
        { s with
          waiting := place position segment s.waiting
          waitingPages := others + pages }
  | none =>
    some { s with
      waiting := place position segment s.waiting
      waitingPages := s.waitingPages + pages }

/-- `insert` by the two. -/
def insertBy (s : Stream) (sequence : UInt32) (payload : Bytes) (fin : Bool) (now : Nat) :
    Option Stream :=
  let position := sequence - s.origin
  let s := { s with
    lastSeen := now
    finAt := if fin then some (position + UInt32.ofNat payload.length) else s.finAt }
  if payload.isEmpty then some s
  else if isAhead position s.next then s.holdBy lower position payload
  else
    let s := s.append position payload
    s.releaseFromBy lower s.waiting

/-- `skipGap?`, the stream without its first gap, if it has one. -/
def skipGapBy (s : Stream) : Option (Option Stream) :=
  match s.waiting with
  | [] => some none
  | (first, _) :: _ => (releaseFromBy lower { s with next := first } s.waiting).map some

variable {lower}

theorem length_waiting_releaseFromBy : ∀ {held : List (UInt32 × Bytes)} {s t : Stream},
    s.releaseFromBy lower held = some t → t.waiting.length ≤ held.length
  | [], _, _, h => by
    obtain rfl := Option.some.inj h
    exact Nat.le_refl 0
  | (position, segment) :: later, s, t, h => by
    simp only [releaseFromBy] at h
    split at h
    · obtain rfl := Option.some.inj h
      exact Nat.le_refl _
    · obtain ⟨waitingPages, -, hlater⟩ := Option.bind_eq_some_iff.1 h
      exact Nat.le_succ_of_le (length_waiting_releaseFromBy hlater)

theorem length_waiting_skipGapBy {s t : Stream} (h : s.skipGapBy lower = some (some t)) :
    t.waiting.length < s.waiting.length := by
  unfold skipGapBy at h
  rcases hw : s.waiting with _ | ⟨⟨first, segment⟩, later⟩
  · simp [hw] at h
  · simp only [hw, releaseFromBy, not_isAhead_self, Bool.false_eq_true, if_false] at h
    obtain ⟨u, hu, hut⟩ := Option.map_eq_some_iff.1 h
    obtain ⟨waitingPages, -, hlater⟩ := Option.bind_eq_some_iff.1 hu
    rw [← Option.some.inj hut]
    exact Nat.lt_succ_of_le (length_waiting_releaseFromBy hlater)

variable (lower)

/-- `relieve` by `skipGapBy`. -/
def relieveBy (limit : Nat) (s : Stream) : Option Stream :=
  if limit < s.waitingPages then
    match _h : s.skipGapBy lower with
    | none => none
    | some none => some s
    | some (some t) => relieveBy limit t
  else some s
termination_by s.waiting.length
decreasing_by exact length_waiting_skipGapBy _h

/-- `finish` by `skipGapBy`. -/
def finishBy (s : Stream) : Option Bytes :=
  match _h : s.skipGapBy lower with
  | none => none
  | some none => some s.data
  | some (some t) => finishBy t
termination_by s.waiting.length
decreasing_by exact length_waiting_skipGapBy _h

variable {lower}

theorem relieveBy_of_some {limit : Nat} {s t : Stream} (hover : limit < s.waitingPages)
    (h : s.skipGapBy lower = some (some t)) :
    s.relieveBy lower limit = t.relieveBy lower limit := by
  rw [relieveBy, if_pos hover]
  split
  · simp_all
  · simp_all
  · rename_i u hu
    obtain rfl : t = u := Option.some.inj (Option.some.inj (h.symm.trans hu))
    rfl

theorem relieveBy_of_none {limit : Nat} {s : Stream} (hover : limit < s.waitingPages)
    (h : s.skipGapBy lower = some none) : s.relieveBy lower limit = some s := by
  rw [relieveBy, if_pos hover]
  split
  · simp_all
  · rfl
  · simp_all

theorem finishBy_of_some {s t : Stream} (h : s.skipGapBy lower = some (some t)) :
    s.finishBy lower = t.finishBy lower := by
  rw [finishBy]
  split
  · simp_all
  · simp_all
  · rename_i u hu
    obtain rfl : t = u := Option.some.inj (Option.some.inj (h.symm.trans hu))
    rfl

theorem finishBy_of_none {s : Stream} (h : s.skipGapBy lower = some none) :
    s.finishBy lower = some s.data := by
  rw [finishBy]
  split
  · simp_all
  · rfl
  · simp_all

section Subtracts

variable (hlower : Subtracts lower)
include hlower

theorem releaseFromBy_eq : ∀ {held : List (UInt32 × Bytes)} {s : Stream},
    s.waitingPages = pagesOf held → s.releaseFromBy lower held = some (s.releaseFrom held)
  | [], _, _ => rfl
  | (position, segment) :: later, s, hp => by
    rw [pagesOf_cons] at hp
    simp only [releaseFromBy, releaseFrom]
    split
    · rfl
    · have hle : pagesFor segment.length ≤ s.waitingPages := by omega
      rw [hlower _ _ hle, Option.bind_some]
      refine releaseFromBy_eq ?_
      rw [waitingPages_append]
      show s.waitingPages - pagesFor segment.length = pagesOf later
      omega

theorem Accounted.holdBy {s : Stream} (h : s.Accounted) (position : UInt32) (segment : Bytes) :
    s.holdBy lower position segment = some (s.hold position segment) := by
  simp only [Stream.holdBy, Stream.hold]
  rcases hat : s.waitingAt? position with _ | held
  · rfl
  · obtain ⟨e, he, rfl⟩ := Option.map_eq_some_iff.1 hat
    have hle : pagesFor e.2.length ≤ s.waitingPages := by
      rw [h.pages]
      exact pagesFor_le_pagesOf (List.mem_of_find?_eq_some he)
    simp only [hlower _ _ hle, Option.map_some]
    split <;> rfl

theorem Accounted.insertBy {s : Stream} (h : s.Accounted) (sequence : UInt32) (payload : Bytes)
    (fin : Bool) (now : Nat) :
    s.insertBy lower sequence payload fin now = some (s.insert sequence payload fin now) := by
  simp only [Stream.insertBy, Stream.insert]
  split
  · rfl
  split
  · refine Accounted.holdBy hlower ?_ _ _
    exact ⟨h.inOrder, h.nonempty, h.pages⟩
  · refine releaseFromBy_eq hlower ?_
    rw [waitingPages_append, waiting_append]
    exact h.pages

theorem Accounted.skipGapBy {s : Stream} (h : s.Accounted) :
    s.skipGapBy lower = some s.skipGap? := by
  unfold Stream.skipGapBy Stream.skipGap?
  have hrelease (first : UInt32) := releaseFromBy_eq (s := { s with next := first }) hlower h.pages
  cases hw : s.waiting with
  | nil => rfl
  | cons earliest later =>
    simp only [hw] at hrelease
    dsimp only
    rw [hrelease]
    rfl

theorem Accounted.relieveBy (limit : Nat) {s : Stream} (h : s.Accounted) :
    s.relieveBy lower limit = some (s.relieve limit) := by
  fun_induction Stream.relieve limit s with
  | case1 s hover t ht ih =>
    rw [relieveBy_of_some hover ((h.skipGapBy hlower).trans (congrArg some ht))]
    exact ih (h.skipGap? ht)
  | case2 s hover hnone =>
    exact relieveBy_of_none hover ((h.skipGapBy hlower).trans (congrArg some hnone))
  | case3 s hover => rw [Stream.relieveBy, if_neg hover]

theorem Accounted.finishBy {s : Stream} (h : s.Accounted) : s.finishBy lower = some s.finish := by
  fun_induction Stream.finish s with
  | case1 s t ht ih =>
    rw [finishBy_of_some ((h.skipGapBy hlower).trans (congrArg some ht))]
    exact ih (h.skipGap? ht)
  | case2 s hnone => exact finishBy_of_none ((h.skipGapBy hlower).trans (congrArg some hnone))

end Subtracts

end Stream

/-! ### Pools -/

namespace Pool

/-- `complete`, which takes the pages of the stream off the counter. -/
def completeBy (p : Pool) (flow : Flow) (ending : Ending) : Option (Pool × Option Completed) :=
  match p.find? flow with
  | none => some (p, none)
  | some stream => do
    let pages ← lower p.pages stream.waitingPages
    let data ← stream.finishBy lower
    some ({ p with streams := without flow p.streams, pages },
      if data.isEmpty then none else some ⟨flow, data, ending⟩)

/-- `completeAll` by `completeBy`. -/
def completeAllBy (ending : Ending) : List Flow → Pool → Option (Pool × List Completed)
  | [], p => some (p, [])
  | flow :: flows, p => do
    let first ← p.completeBy lower flow ending
    let rest ← completeAllBy ending flows first.1
    some (rest.1, first.2.toList ++ rest.2)

/-- `conclude` by `completeBy`. -/
def concludeBy (p : Pool) (flow : Flow) : Option Ending → Option (Pool × Option Completed)
  | none => some (p, none)
  | some ending => p.completeBy lower flow ending

/-- `keep`, which takes the former pages of the stream off the counter. -/
def keepBy (p : Pool) (flow : Flow) (before after : Stream) : Option Pool := do
  let others ← lower p.pages before.waitingPages
  some { p with streams := put flow after p.streams, pages := others + after.waitingPages }

theorem streams_completeBy {lower : Nat → Nat → Option Nat} {p : Pool} {flow : Flow}
    {ending : Ending} {r : Pool × Option Completed} (h : p.completeBy lower flow ending = some r) :
    (p.complete flow ending).1.streams = r.1.streams := by
  unfold completeBy at h
  unfold complete
  rcases hf : p.find? flow with _ | stream
  · rw [hf] at h
    rw [← Option.some.inj h]
  · simp only [hf] at h
    obtain ⟨pages, -, h⟩ := Option.bind_eq_some_iff.1 h
    obtain ⟨data, -, h⟩ := Option.bind_eq_some_iff.1 h
    rw [← Option.some.inj h]

/-- `enforceTotal` by `completeBy`. -/
def enforceTotalBy (p : Pool) : Option (Pool × List Completed) :=
  if p.limits.total < p.pages then
    match _hv : p.victim? with
    | none => some (p, [])
    | some flow =>
      match _h : { p with evictions := p.evictions + 1 }.completeBy lower flow .evicted with
      | none => none
      | some first => do
        let rest ← enforceTotalBy first.1
        some (rest.1, first.2.toList ++ rest.2)
  else some (p, [])
termination_by p.streams.length
decreasing_by
  obtain ⟨stream, hm, _⟩ := victim?_mem _hv
  rw [← streams_completeBy _h]
  exact length_streams_complete hm

/-- `assemble` by all of these. -/
def assembleBy (p : Pool) (segment : Segment) (payload : Bytes) (now : Nat) :
    Option (Pool × List Completed) :=
  match p.streamFor? segment payload now with
  | none => some (p, [])
  | some before => do
    let inserted ← before.insertBy lower segment.start payload segment.fin now
    let after ← inserted.relieveBy lower p.limits.perStream
    let kept ← p.keepBy lower segment.flow before after
    let concluded ← kept.concludeBy lower segment.flow (ending? segment after)
    let enforced ← concluded.1.enforceTotalBy lower
    some (enforced.1, concluded.2.toList ++ enforced.2)

/-- A call with a way to lower counters. -/
def callBy (p : Pool) : Call → Option (Pool × List Completed)
  | .assemble segment payload now => p.assembleBy lower segment payload now
  | .flushOlderThan cutoff => completeAllBy lower .idle (p.idleFlows cutoff) p
  | .flushAll => completeAllBy lower .endOfCapture (p.table.map (·.1)) p
  | .list order => some (p.listed order, [])

/-- A call with counters that cannot go below zero. -/
def callChecked? (p : Pool) (c : Call) : Option (Pool × List Completed) :=
  p.callBy lower? c

section Subtracts

variable {lower} {p : Pool} (hlower : Subtracts lower)
include hlower

theorem Accounted.completeBy (h : p.Accounted) (flow : Flow) (ending : Ending) :
    p.completeBy lower flow ending = some (p.complete flow ending) := by
  unfold Pool.completeBy Pool.complete
  rcases hf : p.find? flow with _ | stream
  · rfl
  · have hm := mem_of_find? hf
    have hle : stream.waitingPages ≤ p.pages := by
      rw [h.pages]
      exact le_sumOf Stream.waitingPages hm
    simp only [hlower _ _ hle, (h.accounted _ hm).finishBy hlower]
    rfl

theorem Accounted.completeAllBy (ending : Ending) : ∀ (flows : List Flow) {p : Pool},
    p.Accounted → completeAllBy lower ending flows p = some (Pool.completeAll ending flows p)
  | [], _, _ => rfl
  | flow :: flows, p, h => by
    have hrest := Accounted.completeAllBy ending flows (h.complete flow ending)
    simp only [Pool.completeAllBy, h.completeBy hlower, Option.bind_eq_bind, Option.bind_some,
      hrest]
    rfl

theorem Accounted.concludeBy (h : p.Accounted) (flow : Flow) : ∀ ending : Option Ending,
    p.concludeBy lower flow ending = some (p.conclude flow ending)
  | none => rfl
  | some ending => h.completeBy hlower flow ending

theorem Accounted.keepBy (h : p.Accounted) {segment : Segment} {payload : Bytes} {now : Nat}
    {before : Stream} (hs : p.streamFor? segment payload now = some before) (after : Stream) :
    p.keepBy lower segment.flow before after = some (p.keep segment.flow before after) := by
  have hle : before.waitingPages ≤ p.pages := by
    rcases mem_or_start_of_streamFor? hs with hm | rfl
    · rw [h.pages]
      exact le_sumOf Stream.waitingPages hm
    · exact Nat.zero_le _
  simp only [Pool.keepBy, hlower _ _ hle]
  rfl

theorem Accounted.enforceTotalBy (h : p.Accounted) :
    p.enforceTotalBy lower = some p.enforceTotal := by
  fun_induction Pool.enforceTotal p with
  | case1 p hover hv =>
    rw [Pool.enforceTotalBy, if_pos hover]
    split <;> simp_all
  | case2 p hover flow hv first rest ih =>
    have hc : { p with evictions := p.evictions + 1 }.Accounted :=
      ⟨h.unique, h.accounted, h.perStream, h.pages⟩
    have hfirst := hc.completeBy hlower flow .evicted
    have hrest := ih (hc.complete flow .evicted)
    rw [Pool.enforceTotalBy, if_pos hover]
    split
    · simp_all
    · rename_i flow' hv'
      obtain rfl : flow = flow' := Option.some.inj (hv.symm.trans hv')
      split
      · simp_all
      · rename_i first' hfirst'
        obtain rfl : first = first' := Option.some.inj (hfirst.symm.trans hfirst')
        rw [hrest]
        rfl
  | case3 p hover => rw [Pool.enforceTotalBy, if_neg hover]

theorem Accounted.assembleBy (h : p.Accounted) (segment : Segment) (payload : Bytes) (now : Nat) :
    p.assembleBy lower segment payload now = some (p.assemble segment payload now) := by
  simp only [Pool.assembleBy, Pool.assemble]
  rcases hs : p.streamFor? segment payload now with _ | before
  · rfl
  · have hi := (h.streamFor? hs).insert segment.start payload segment.fin now
    obtain ⟨ha, hl⟩ := hi.relieve p.limits.perStream
    simp only [(h.streamFor? hs).insertBy hlower, hi.relieveBy hlower, Option.bind_eq_bind,
      Option.bind_some]
    generalize Stream.relieve _ _ = after at ha hl
    have hk := h.keep hs ha hl
    simp only [h.keepBy hlower hs, hk.concludeBy hlower, Option.bind_some,
      (hk.conclude segment.flow (ending? segment after)).enforceTotalBy hlower]

/-- Where the counters count what waits, a call lowers none of them below zero. -/
theorem Accounted.callBy (h : p.Accounted) : ∀ c : Call, p.callBy lower c = some (p.call c)
  | .assemble segment payload now => h.assembleBy hlower segment payload now
  | .flushOlderThan _ => Accounted.completeAllBy hlower _ _ h
  | .flushAll => Accounted.completeAllBy hlower _ _ h
  | .list _ => rfl

end Subtracts

/-- After any run of calls both counters count what waits, both ceilings are kept, and no call
would lower a counter below zero. -/
theorem counters_exact (limits : Limits) (calls : List Call) :
    let p := (empty limits).after calls
    (p.streams.map (·.1)).Nodup ∧
      (∀ e ∈ p.streams, e.2.waitingPages = pagesOf e.2.waiting ∧ (∀ w ∈ e.2.waiting, w.2 ≠ []) ∧
        e.2.waitingPages ≤ limits.perStream) ∧
      p.pages = sumOf Stream.waitingPages p.streams ∧ p.pages ≤ limits.total ∧
      ∀ c : Call, p.callChecked? c = some (p.call c) := by
  intro p
  have h : p.Bounded := bounded_after limits calls
  have hlimits : p.limits = limits := limits_after (empty limits) calls
  have hper := h.perStream
  have htotal := h.total
  rw [hlimits] at hper htotal
  refine ⟨h.unique, fun e he => ⟨?_, ?_, hper e he⟩, h.pages, htotal, h.callBy subtracts_lower?⟩
  · exact (h.accounted e he).pages
  · exact (h.accounted e he).nonempty

end Pool

end Trawl.Reassembly
