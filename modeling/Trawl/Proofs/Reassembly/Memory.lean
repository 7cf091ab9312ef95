import Trawl.Proofs.Reassembly.Accounting

/-!
# The memory of a pool

The bytes that wait never exceed the ceiling of all streams, as their pages are counted. Released
bytes are kept until their stream is completed and are not counted: the memory of a pool exceeds the
ceiling exactly where they take more than what the waiting bytes leave of it, and only the size of
the input rules that out.
-/

namespace Trawl.Reassembly

/-- The bytes that a stream has released and still holds. -/
def Stream.releasedBytes (s : Stream) : Nat :=
  s.data.length

/-- The bytes that wait in a stream. -/
def Stream.waitingBytes (s : Stream) : Nat :=
  bytesOf s.waiting

/-- All payload bytes that a stream holds. -/
def Stream.heldBytes (s : Stream) : Nat :=
  s.releasedBytes + s.waitingBytes

namespace Pool

variable {p : Pool}

/-- The released bytes that all live streams hold. -/
def releasedBytes (p : Pool) : Nat :=
  sumOf Stream.releasedBytes p.streams

/-- The bytes that wait in all live streams. -/
def waitingBytes (p : Pool) : Nat :=
  sumOf Stream.waitingBytes p.streams

/-- All payload bytes that the live streams hold. -/
def heldBytes (p : Pool) : Nat :=
  p.releasedBytes + p.waitingBytes

theorem waitingBytes_le (h : p.Accounted) : p.waitingBytes ≤ p.pages * pageSize := by
  have hle : ∀ e ∈ p.streams, e.2.waitingBytes ≤ e.2.waitingPages * pageSize := by
    intro e he
    rw [(h.accounted e he).pages]
    exact bytesOf_le_pagesOf e.2.waiting
  have := sumOf_le Stream.waitingBytes (g := fun s => s.waitingPages * pageSize) hle
  rwa [sumOf_mul, ← h.pages] at this

theorem waitingBytes_after (limits : Limits) (calls : List Call) :
    ((empty limits).after calls).waitingBytes ≤ limits.total * pageSize := by
  have hb := bounded_after limits calls
  have ht := hb.total
  rw [limits_after] at ht
  exact Nat.le_trans (waitingBytes_le hb.toAccounted) (Nat.mul_le_mul_right pageSize ht)

end Pool

/-! ### What a stream holds -/

namespace Stream

theorem releasedBytes_append_le (s : Stream) (position : UInt32) (segment : Bytes) :
    (s.append position segment).releasedBytes ≤ s.releasedBytes + segment.length := by
  simp only [append]
  split
  · simp only [releasedBytes, data, List.reverse_cons, List.flatten_append, List.flatten_singleton,
      List.length_append, List.length_drop]
    omega
  · exact Nat.le_add_right ..

theorem heldBytes_releaseFrom_le : ∀ (held : List (UInt32 × Bytes)) (s : Stream),
    (s.releaseFrom held).heldBytes ≤ s.releasedBytes + bytesOf held
  | [], _ => Nat.le_refl _
  | (position, segment) :: later, s => by
    simp only [releaseFrom]
    split
    · exact Nat.le_refl _
    · refine Nat.le_trans (heldBytes_releaseFrom_le later _) ?_
      have := releasedBytes_append_le
        { s with waitingPages := s.waitingPages - pagesFor segment.length } position segment
      rw [bytesOf_cons, ← Nat.add_assoc]
      exact Nat.add_le_add_right this _

theorem heldBytes_release_le (s : Stream) : s.release.heldBytes ≤ s.heldBytes :=
  heldBytes_releaseFrom_le s.waiting s

theorem bytesOf_place_le (position : UInt32) (segment : Bytes) : ∀ held : List (UInt32 × Bytes),
    bytesOf (place position segment held) ≤ bytesOf held + segment.length
  | [] => by simp [place, bytesOf]
  | (p, x) :: later => by
    have ih := bytesOf_place_le position segment later
    simp only [place]
    split
    · rw [bytesOf_cons]
      omega
    split
    · rw [bytesOf_cons, bytesOf_cons]
      split <;> omega
    · rw [bytesOf_cons, bytesOf_cons]
      omega

theorem heldBytes_hold_le (s : Stream) (position : UInt32) (segment : Bytes) :
    (s.hold position segment).heldBytes ≤ s.heldBytes + segment.length := by
  have hplace : s.releasedBytes + bytesOf (place position segment s.waiting)
      ≤ s.releasedBytes + bytesOf s.waiting + segment.length := by
    rw [Nat.add_assoc]
    exact Nat.add_le_add_left (bytesOf_place_le position segment s.waiting) _
  simp only [hold]
  split
  · split
    · exact Nat.le_add_right ..
    · exact hplace
  · exact hplace

/-- A stream holds no more than it did and what comes. -/
theorem heldBytes_insert_le (s : Stream) (sequence : UInt32) (payload : Bytes) (fin : Bool)
    (now : Nat) :
    (s.insert sequence payload fin now).heldBytes ≤ s.heldBytes + payload.length := by
  obtain ⟨t, ht, hi⟩ := s.insert_eq sequence payload fin now
  have hs : t.heldBytes = s.heldBytes := by rw [ht]; rfl
  rw [hi, ← hs]
  split
  · exact Nat.le_add_right ..
  split
  · exact heldBytes_hold_le t _ payload
  · refine Nat.le_trans (heldBytes_release_le _) ?_
    have := releasedBytes_append_le t (sequence - s.origin) payload
    simp only [heldBytes, waitingBytes, waiting_append]
    omega

theorem heldBytes_skipGap?_le {s t : Stream} (h : s.skipGap? = some t) :
    t.heldBytes ≤ s.heldBytes := by
  unfold skipGap? at h
  split at h
  · simp at h
  · simp only [Option.some.injEq] at h
    subst h
    exact heldBytes_release_le _

theorem heldBytes_relieve_le (limit : Nat) (s : Stream) :
    (s.relieve limit).heldBytes ≤ s.heldBytes := by
  fun_induction relieve limit s with
  | case1 s hover t ht ih => exact Nat.le_trans ih (heldBytes_skipGap?_le ht)
  | case2 => exact Nat.le_refl _
  | case3 => exact Nat.le_refl _

end Stream

/-! ### What is fed -/

/-- The payload bytes that a call brings. -/
def Call.fedBytes : Call → Nat
  | .assemble _ payload _ => payload.length
  | _ => 0

/-- The payload bytes that calls bring. -/
def fedBytes (calls : List Call) : Nat :=
  (calls.map Call.fedBytes).sum

namespace Pool

theorem heldBytes_eq (p : Pool) : p.heldBytes = sumOf Stream.heldBytes p.streams :=
  (sumOf_add Stream.releasedBytes Stream.waitingBytes p.streams).symm

theorem heldBytes_complete_le (p : Pool) (flow : Flow) (ending : Ending) :
    (p.complete flow ending).1.heldBytes ≤ p.heldBytes := by
  rw [heldBytes_eq, heldBytes_eq]
  unfold complete
  split
  · exact Nat.le_refl _
  · exact sumOf_without_le ..

theorem heldBytes_conclude_le (p : Pool) (flow : Flow) : ∀ ending : Option Ending,
    (p.conclude flow ending).1.heldBytes ≤ p.heldBytes
  | none => Nat.le_refl _
  | some ending => heldBytes_complete_le p flow ending

theorem heldBytes_completeAll_le (ending : Ending) : ∀ (flows : List Flow) (p : Pool),
    (completeAll ending flows p).1.heldBytes ≤ p.heldBytes
  | [], _ => Nat.le_refl _
  | flow :: flows, p =>
    Nat.le_trans (heldBytes_completeAll_le ending flows _) (heldBytes_complete_le p flow ending)

theorem heldBytes_enforceTotal_le (p : Pool) : p.enforceTotal.1.heldBytes ≤ p.heldBytes := by
  fun_induction enforceTotal p with
  | case1 => exact Nat.le_refl _
  | case2 p hover flow hv first rest ih =>
    exact Nat.le_trans ih
      (heldBytes_complete_le { p with evictions := p.evictions + 1 } flow .evicted)
  | case3 => exact Nat.le_refl _

theorem heldBytes_keep_le (p : Pool) {segment : Segment} {payload : Bytes} {now n : Nat}
    {before after : Stream} (hs : p.streamFor? segment payload now = some before)
    (ha : after.heldBytes ≤ before.heldBytes + n) :
    (p.keep segment.flow before after).heldBytes ≤ p.heldBytes + n := by
  rw [heldBytes_eq, heldBytes_eq]
  unfold streamFor? at hs
  simp only [keep]
  split at hs
  · rename_i stream hf
    simp only [Option.some.injEq] at hs
    subst hs
    obtain ⟨e, he, rfl⟩ := Option.map_eq_some_iff.1 hf
    have := sumOf_put_old Stream.heldBytes after he
    omega
  · rename_i hf
    split at hs
    · simp at hs
    · simp only [Option.some.injEq] at hs
      subst hs
      rw [sumOf_put_new Stream.heldBytes after (Option.map_eq_none_iff.1 hf)]
      have hstart : (Stream.start segment.start now).heldBytes = 0 := rfl
      omega

/-- A pool holds no more than it did and what a call brings. -/
theorem heldBytes_call_le (p : Pool) : ∀ c : Call, (p.call c).1.heldBytes ≤ p.heldBytes + c.fedBytes
  | .assemble segment payload now => by
    simp only [call, assemble, Call.fedBytes]
    split
    · exact Nat.le_add_right ..
    · rename_i before hs
      refine Nat.le_trans (heldBytes_enforceTotal_le _) ?_
      refine Nat.le_trans (heldBytes_conclude_le _ _ _) ?_
      refine heldBytes_keep_le p hs (Nat.le_trans (Stream.heldBytes_relieve_le _ _) ?_)
      exact Stream.heldBytes_insert_le ..
  | .flushOlderThan _ => heldBytes_completeAll_le ..
  | .flushAll => heldBytes_completeAll_le ..
  | .list _ => Nat.le_refl _

theorem heldBytes_after_le : ∀ (calls : List Call) (p : Pool),
    (p.after calls).heldBytes ≤ p.heldBytes + fedBytes calls
  | [], _ => Nat.le_add_right ..
  | c :: calls, p => by
    have hc := heldBytes_call_le p c
    have hr := heldBytes_after_le calls (p.call c).1
    simp only [fedBytes, List.map_cons, List.sum_cons] at hr ⊢
    show ((p.call c).1.after calls).heldBytes ≤ _
    omega

/-- A payload that opens a stream is released at once, and held. -/
theorem heldBytes_opened (limits : Limits) (source target : Endpoint) (sequence : UInt32)
    {payload : Bytes} (hp : payload ≠ []) (now : Nat) :
    ((empty limits).after
      [.assemble ⟨source, target, sequence, false, false, false⟩ payload now]).heldBytes
      = payload.length := by
  have hs : (empty limits).streamFor? ⟨source, target, sequence, false, false, false⟩ payload now
      = some (.start sequence now) := by
    simp [streamFor?, empty, find?, hp, Segment.start]
  obtain ⟨t, ht, hi⟩ : ∃ t : Stream, t = { Stream.start sequence now with
        next := UInt32.ofNat payload.length
        slices := [payload] } ∧
      (Stream.start sequence now).insert sequence payload false now = t := by
    refine ⟨_, rfl, ?_⟩
    simp [Stream.insert, Stream.start, hp, Stream.not_isAhead_self, Stream.append,
      List.length_pos_iff.2 hp, Stream.release, Stream.releaseFrom]
  have hw : t.waitingPages = 0 := by rw [ht]; rfl
  have he : ending? ⟨source, target, sequence, false, false, false⟩ t = none := by
    simp [ending?, Stream.isFinished, ht, Stream.start]
  simp only [after, List.foldl_cons, List.foldl_nil, call, assemble, hs]
  rw [show Segment.start ⟨source, target, sequence, false, false, false⟩ = sequence from rfl, hi,
    Stream.relieve_of_le (hw ▸ Nat.zero_le _), he]
  rw [enforceTotal_of_le (by simp [conclude, keep, empty, hw, Stream.start])]
  simp [conclude, keep, empty, put, heldBytes, releasedBytes, waitingBytes, sumOf,
    Stream.releasedBytes, Stream.waitingBytes, bytesOf, Stream.data, ht, Stream.start]

/-- What waits never exceeds the ceiling of all streams. What is held exceeds it exactly where the
released bytes take more than the rest, and that is ruled out for no more input than the ceiling
itself. -/
theorem heldBytes_le_iff (limits : Limits) :
    (∀ calls : List Call,
      let p := (empty limits).after calls
      p.waitingBytes ≤ limits.total * pageSize ∧
        (p.heldBytes ≤ limits.total * pageSize ↔
          p.releasedBytes ≤ limits.total * pageSize - p.waitingBytes)) ∧
      ∀ n, (∀ calls, fedBytes calls ≤ n →
          ((empty limits).after calls).heldBytes ≤ limits.total * pageSize) ↔
        n ≤ limits.total * pageSize := by
  refine ⟨?_, fun n => ⟨fun h => ?_, fun hn calls hf => ?_⟩⟩
  · intro calls p
    have hw : p.waitingBytes ≤ limits.total * pageSize := waitingBytes_after limits calls
    refine ⟨hw, ?_⟩
    unfold heldBytes
    omega
  · rcases Nat.eq_zero_or_pos n with rfl | hpos
    · exact Nat.zero_le _
    have hne : List.replicate n (0 : UInt8) ≠ [] := by simpa using Nat.ne_of_gt hpos
    have hheld := heldBytes_opened limits (.v4 ⟨1⟩ 1) (.v4 ⟨2⟩ 2) 0 hne 0
    rw [List.length_replicate] at hheld
    rw [← hheld]
    exact h _ (by simp [fedBytes, Call.fedBytes])
  · have := heldBytes_after_le calls (empty limits)
    have hempty : (empty limits).heldBytes = 0 := rfl
    omega

/-- With one page for all streams, a payload of one byte more than a page is held. -/
theorem heldBytes_exceeds_ceiling :
    ¬ ∀ (limits : Limits) (calls : List Call),
      ((empty limits).after calls).heldBytes ≤ limits.total * pageSize := by
  intro h
  have hn : List.replicate (pageSize + 1) (0 : UInt8) ≠ [] := by simp
  have hle := h ⟨1, 1⟩
    [.assemble ⟨.v4 ⟨1⟩ 1, .v4 ⟨2⟩ 2, 0, false, false, false⟩ (List.replicate (pageSize + 1) 0) 0]
  rw [heldBytes_opened _ _ _ _ hn, List.length_replicate, Nat.one_mul] at hle
  exact Nat.not_succ_le_self pageSize hle

end Pool

end Trawl.Reassembly
