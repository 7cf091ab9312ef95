import Trawl.Proofs.Reassembly.Clock
import Trawl.Proofs.Reassembly.Eviction

/-!
# The order of the table

The order in which a table lists its streams matters in two ways to a pool. Of streams that have
been silent for equally long, the first is forced out, and at the end the streams are completed in
that order. So as long as no two streams were last heard at one time (`Pool.HeardApart`), any order
has a pool take in a segment in the same way (`Pool.HeardApart.assemble_listed`), and the same
streams are left at the end (`Pool.Accounted.flushAll_listed`).
-/

namespace Trawl.Reassembly

namespace Stream

/-- A stream keeps the time at which it was last heard where all its times may be read off another
clock: take one that shows nothing else. -/
theorem lastSeen_relieve (limit : Nat) (s : Stream) : (s.relieve limit).lastSeen = s.lastSeen :=
  have h : s.relieve limit = (s.relieve limit).retime fun _ => s.lastSeen :=
    retime_relieve (fun _ => s.lastSeen) limit s
  (congrArg lastSeen h).trans rfl

theorem lastSeen_insert (s : Stream) (sequence : UInt32) (payload : Bytes) (fin : Bool)
    (now : Nat) : (s.insert sequence payload fin now).lastSeen = now :=
  have h : s.insert sequence payload fin now =
      (s.insert sequence payload fin now).retime fun _ => now :=
    retime_insert (fun _ => now) s sequence payload fin now
  (congrArg lastSeen h).trans rfl

end Stream

namespace Pool

variable {p : Pool} {now : Nat}

/-! ### Streams that were last heard at different times -/

/-- No two streams were last heard at one time, and all before `now`. -/
structure HeardApart (now : Nat) (p : Pool) : Prop where
  apart : (p.streams.map (·.2.lastSeen)).Nodup
  before : ∀ e ∈ p.streams, e.2.lastSeen < now

theorem heardApart_empty (limits : Limits) : (empty limits).HeardApart now :=
  ⟨List.nodup_nil, fun _ h => absurd h List.not_mem_nil⟩

theorem HeardApart.mono {later : Nat} (h : p.HeardApart now) (hle : now ≤ later) :
    p.HeardApart later :=
  ⟨h.apart, fun e he => Nat.lt_of_lt_of_le (h.before e he) hle⟩

theorem HeardApart.listed (h : p.HeardApart now) (order : List Flow) :
    (p.listed order).HeardApart now :=
  ⟨h.apart, h.before⟩

theorem streams_complete_sublist (p : Pool) (flow : Flow) (ending : Ending) :
    (p.complete flow ending).1.streams.Sublist p.streams := by
  unfold complete
  split
  · exact .refl _
  · exact List.filter_sublist

theorem HeardApart.complete (h : p.HeardApart now) (flow : Flow) (ending : Ending) :
    (p.complete flow ending).1.HeardApart now :=
  have hsub := streams_complete_sublist p flow ending
  ⟨(hsub.map _).nodup h.apart, fun e he => h.before e (hsub.subset he)⟩

theorem HeardApart.conclude (h : p.HeardApart now) (flow : Flow) : ∀ ending : Option Ending,
    (p.conclude flow ending).1.HeardApart now
  | none => h
  | some ending => h.complete flow ending

theorem HeardApart.enforceTotal (h : p.HeardApart now) : p.enforceTotal.1.HeardApart now := by
  fun_induction Pool.enforceTotal p with
  | case1 => exact h
  | case2 p hover flow hv first rest ih =>
    have hcounted : { p with evictions := p.evictions + 1 }.HeardApart now := ⟨h.apart, h.before⟩
    exact ih (hcounted.complete flow .evicted)
  | case3 => exact h

theorem nodup_lastSeen_put {flow : Flow} {stream : Stream} : ∀ {streams : List (Flow × Stream)},
    (streams.map (·.2.lastSeen)).Nodup → (∀ e ∈ streams, e.2.lastSeen < stream.lastSeen) →
      ((put flow stream streams).map (·.2.lastSeen)).Nodup
  | [], _, _ => by simp [put]
  | a :: others, h, hbefore => by
    obtain ⟨hnew, hothers⟩ := List.nodup_cons.1 (List.map_cons ▸ h)
    obtain ⟨ha, hbefore⟩ := List.forall_mem_cons.1 hbefore
    rw [put]
    split
    · refine List.nodup_cons.2 ⟨fun hm => ?_, hothers⟩
      obtain ⟨e, he, heq⟩ := List.mem_map.1 hm
      exact Nat.ne_of_lt (hbefore e he) heq
    · refine List.nodup_cons.2 ⟨fun hm => ?_, nodup_lastSeen_put hothers hbefore⟩
      obtain ⟨e, he, heq⟩ := List.mem_map.1 hm
      rcases mem_put he with rfl | he
      · exact Nat.ne_of_gt ha heq
      · exact hnew (List.mem_map.2 ⟨e, he, heq⟩)

/-- The stream that takes in a segment is the last one that was heard. -/
theorem HeardApart.keep (h : p.HeardApart now) (flow : Flow) (before : Stream) {after : Stream}
    (hafter : after.lastSeen = now) : (p.keep flow before after).HeardApart (now + 1) where
  apart := nodup_lastSeen_put h.apart fun e he => hafter ▸ h.before e he
  before e he := by
    rcases mem_put he with rfl | he
    · exact Nat.lt_succ_of_le (Nat.le_of_eq hafter)
    · exact Nat.lt_succ_of_lt (h.before e he)

theorem HeardApart.assemble (h : p.HeardApart now) (segment : Segment) (payload : Bytes) :
    (p.assemble segment payload now).1.HeardApart (now + 1) := by
  unfold Pool.assemble
  split
  · exact h.mono (Nat.le_succ now)
  · rename_i before hbefore
    have hafter : ((before.insert segment.start payload segment.fin now).relieve
        p.limits.perStream).lastSeen = now := by
      rw [Stream.lastSeen_relieve, Stream.lastSeen_insert]
    exact ((h.keep segment.flow before hafter).conclude segment.flow _).enforceTotal

/-! ### Another order -/

@[simp] theorem listed_listed (p : Pool) (order last : List Flow) :
    (p.listed order).listed last = p.listed last := rfl

theorem victim?_eq_none_iff : p.victim? = none ↔ ∀ e ∈ p.streams, e.2.waitingPages = 0 := by
  have hwaiting : p.table.filter (0 < ·.2.waitingPages) = [] ↔
      ∀ e ∈ p.streams, e.2.waitingPages = 0 := by
    simp [List.filter_eq_nil_iff, p.table_perm.mem_iff]
  rw [← hwaiting]
  unfold victim?
  cases p.table.filter (0 < ·.2.waitingPages) <;> simp

/-- The victim is the same in any order, as no other stream has been silent for as long. -/
theorem HeardApart.victim?_listed (h : p.HeardApart now) (order : List Flow) :
    (p.listed order).victim? = p.victim? := by
  cases hv : p.victim? with
  | none =>
    have hnone := victim?_eq_none_iff.1 hv
    exact (victim?_eq_none_iff (p := p.listed order)).2 hnone
  | some flow =>
    cases hv' : (p.listed order).victim? with
    | none =>
      have hnone := victim?_eq_none_iff.1 hv'
      rw [(victim?_eq_none_iff (p := p)).2 hnone] at hv
      cases hv
    | some flow' =>
      obtain ⟨s, hs, hwaits, hleast⟩ := victim?_spec hv
      obtain ⟨s', hs', hwaits', hleast'⟩ := victim?_spec hv'
      have hsame : s'.lastSeen = s.lastSeen :=
        Nat.le_antisymm (hleast' _ hs hwaits) (hleast _ hs' hwaits')
      have heq : (flow', s') = (flow, s) := List.inj_on_of_nodup_map h.apart hs' hs hsame
      rw [(Prod.mk.inj heq).1]

theorem complete_listed (p : Pool) (order : List Flow) (flow : Flow) (ending : Ending) :
    (p.listed order).complete flow ending =
      ((p.complete flow ending).1.listed order, (p.complete flow ending).2) := by
  have hfind : (p.listed order).find? flow = p.find? flow := rfl
  unfold complete
  rw [hfind]
  cases p.find? flow <;> rfl

theorem conclude_listed (p : Pool) (order : List Flow) (flow : Flow) : ∀ ending : Option Ending,
    (p.listed order).conclude flow ending =
      ((p.conclude flow ending).1.listed order, (p.conclude flow ending).2)
  | none => rfl
  | some ending => complete_listed p order flow ending

theorem HeardApart.enforceTotal_listed (h : p.HeardApart now) (order : List Flow) :
    (p.listed order).enforceTotal = (p.enforceTotal.1.listed order, p.enforceTotal.2) := by
  fun_induction Pool.enforceTotal p with
  | case1 p hover hv => exact enforceTotal_of_none (by rw [h.victim?_listed, hv])
  | case2 p hover flow hv first rest ih =>
    have hcounted : { p with evictions := p.evictions + 1 }.HeardApart now := ⟨h.apart, h.before⟩
    have hfirst : { p.listed order with evictions := p.evictions + 1 }.complete flow .evicted =
        (first.1.listed order, first.2) :=
      complete_listed { p with evictions := p.evictions + 1 } order flow .evicted
    rw [enforceTotal_of_some (p := p.listed order) hover (by rw [h.victim?_listed, hv])]
    show _ = (rest.1.listed order, first.2.toList ++ rest.2)
    rw [show (p.listed order).evictions = p.evictions from rfl, hfirst]
    simp only [ih (hcounted.complete flow .evicted), rest]
  | case3 p hover => exact enforceTotal_of_le (Nat.not_lt.1 hover)

/-- A segment is taken in in the same way in any order. -/
theorem HeardApart.assemble_listed (h : p.HeardApart now) (order : List Flow) (segment : Segment)
    (payload : Bytes) : (p.listed order).assemble segment payload now =
      ((p.assemble segment payload now).1.listed order, (p.assemble segment payload now).2) := by
  have hfor : (p.listed order).streamFor? segment payload now =
    p.streamFor? segment payload now := rfl
  have hlimits : (p.listed order).limits = p.limits := rfl
  simp only [Pool.assemble, hfor, hlimits]
  cases p.streamFor? segment payload now with
  | none => rfl
  | some before =>
    have hafter : ((before.insert segment.start payload segment.fin now).relieve
        p.limits.perStream).lastSeen = now := by
      rw [Stream.lastSeen_relieve, Stream.lastSeen_insert]
    dsimp only
    generalize (before.insert segment.start payload segment.fin now).relieve _ = after at hafter
    have hkeep : (p.listed order).keep segment.flow before after =
      (p.keep segment.flow before after).listed order := rfl
    have hconcluded := (h.keep segment.flow before hafter).conclude segment.flow
      (ending? segment after)
    rw [hkeep, conclude_listed, hconcluded.enforceTotal_listed]

/-- The streams that are left at the end are the same in any order. -/
theorem Accounted.flushAll_listed (h : p.Accounted) (order : List Flow) :
    (p.listed order).flushAll.2.Perm p.flushAll.2 := by
  have hflush : ∀ q : Pool, q.Accounted →
      q.flushAll.2.Perm (q.streams.filterMap fun e => e.2.completed? e.1 .endOfCapture) := by
    intro q hq
    have hunique : (q.table.map (·.1)).Nodup := ((q.table_perm.map _).nodup_iff).2 hq.unique
    rw [flushAll, (completeAll_eq .endOfCapture hq q.table_perm.subset hunique).2]
    exact q.table_perm.filterMap _
  exact (hflush (p.listed order) { h with }).trans (hflush p h).symm

end Pool

end Trawl.Reassembly
