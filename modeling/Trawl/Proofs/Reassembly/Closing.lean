import Trawl.Proofs.Reassembly.Completion
import Trawl.Proofs.Reassembly.Order

/-!
# When a stream is over

A stream counts as finished when its closing position is at most its next byte, both taken as
numbers. Round the sequence space, everything before the closing position has been passed when that
does not lie ahead of the next byte. The two agree exactly where both positions are on one lap of
the sequence space (`Stream.isFinished_iff_isPassed`). Near segments keep them on one lap as long as
the next byte is not in the last quarter of the sequence space (`Stream.UnderWay.insert`). From
there on, a stream whose sender closes beyond the end of the sequence space is over at once, with
everything before that missing, and one that has passed the end after its sender had closed before
it is not.
-/

namespace Trawl.Reassembly

/-- How many positions there are. -/
def lap : Nat := 0x100000000

theorem toNat_eq_add_distance {base a : UInt32} (h : base.toNat + distance base a < lap) :
    a.toNat = base.toNat + distance base a := by
  have := base.toNat_lt
  have := a.toNat_lt
  simp only [distance, lap, UInt32.toNat_sub] at h ⊢
  omega

/-- Where the end of the sequence space is out of reach, order of position is order of distance. -/
theorem receding_of_inOrder_of_low {base : UInt32} {held : List (UInt32 × Bytes)}
    (ho : InOrder held) (hw : ∀ e ∈ held, Within base e) (hlow : base.toNat + reach < lap) :
    Receding base held := by
  refine ho.imp_of_mem fun {a b} ha hb hlt => ?_
  have hfar : ∀ e ∈ held, e.1.toNat = base.toNat + distance base e.1 := fun e he =>
    toNat_eq_add_distance (by have := hw e he; unfold Within at this; omega)
  rw [UInt32.lt_iff_toNat_lt, hfar a ha, hfar b hb] at hlt
  omega

namespace Stream

variable {s t : Stream} {base fin : UInt32}

/-- The place of a position on the line of all bytes, on which the next byte lies where its number
says: before the next byte or after it, whichever is nearer. It is negative on the lap before this
one, and beyond the end on the lap after it. -/
def unwrapped (s : Stream) (position : UInt32) : Int :=
  if isAhead position s.next then s.next.toNat + distance s.next position
  else s.next.toNat - distance position s.next

/-- Whether the sender has closed and its closing position does not lie ahead of the next byte. -/
def IsPassed (s : Stream) : Prop :=
  ∃ fin, s.finAt = some fin ∧ isAhead fin s.next = false

/-- Whether the closing position, if there is one, is on the lap of the next byte. -/
def ClosesOnLap (s : Stream) : Prop :=
  ∀ fin ∈ s.finAt, 0 ≤ s.unwrapped fin ∧ s.unwrapped fin < lap

-- Named, so that it is the one closing position that is looked at and not every position.
instance : DecidablePred ClosesOnLap := fun s =>
  (Option.decidableForallMem s.finAt :
    Decidable (∀ fin ∈ s.finAt, 0 ≤ s.unwrapped fin ∧ s.unwrapped fin < lap))

/-! ### The two orders -/

/-- A position lies ahead where its place is farther. -/
theorem isAhead_iff_lt_unwrapped (s : Stream) (position : UInt32) :
    isAhead position s.next = true ↔ (s.next.toNat : Int) < s.unwrapped position := by
  have := position.toNat_lt
  have := s.next.toNat_lt
  simp only [unwrapped, isAhead, distance, Bool.and_eq_true, decide_eq_true_eq,
    UInt32.lt_iff_toNat_lt, UInt32.toNat_sub, UInt32.toNat_ofNat]
  split_ifs <;> omega

/-- A place is at most half a lap away from the next byte, and its number is that of its
position. -/
theorem unwrapped_bounds (s : Stream) (position : UInt32) :
    s.unwrapped position < s.next.toNat + 0x80000000 ∧
      s.next.toNat ≤ s.unwrapped position + 0x80000000 ∧
      s.unwrapped position % lap = position.toNat := by
  have := position.toNat_lt
  have := s.next.toNat_lt
  simp only [unwrapped, lap, isAhead, distance, Bool.and_eq_true, decide_eq_true_eq,
    UInt32.lt_iff_toNat_lt, UInt32.toNat_sub, UInt32.toNat_ofNat]
  split_ifs <;> omega

/-- What is at most half a lap away as a number is on the lap of the next byte. -/
theorem unwrapped_eq_toNat {position : UInt32}
    (h : position.toNat < s.next.toNat + 0x80000000)
    (h' : s.next.toNat ≤ position.toNat + 0x80000000) : s.unwrapped position = position.toNat := by
  have := position.toNat_lt
  have := s.next.toNat_lt
  simp only [unwrapped, isAhead, distance, Bool.and_eq_true, decide_eq_true_eq,
    UInt32.lt_iff_toNat_lt, UInt32.toNat_sub, UInt32.toNat_ofNat]
  split_ifs <;> omega

theorem isFinished_iff_le (hf : s.finAt = some fin) :
    s.isFinished = true ↔ fin.toNat ≤ s.next.toNat := by
  simp [isFinished, hf, UInt32.le_iff_toNat_le]

theorem isPassed_iff_unwrapped_le (hf : s.finAt = some fin) :
    s.IsPassed ↔ s.unwrapped fin ≤ s.next.toNat := by
  simp only [IsPassed, hf, Option.some.injEq, exists_eq_left', ← Bool.not_eq_true,
    isAhead_iff_lt_unwrapped, Int.not_lt]

/-- A stream is finished when its closing position is passed, and only then, exactly where that
position is on the lap of the next byte. -/
theorem isFinished_iff_isPassed : (s.isFinished = true ↔ s.IsPassed) ↔ s.ClosesOnLap := by
  rcases hf : s.finAt with _ | fin
  · simp [isFinished, IsPassed, ClosesOnLap, hf]
  · obtain ⟨hfar, hback, hmod⟩ := s.unwrapped_bounds fin
    have := s.next.toNat_lt
    simp only [isFinished_iff_le hf, isPassed_iff_unwrapped_le hf, ClosesOnLap, hf,
      Option.mem_def, Option.some.injEq, forall_eq']
    unfold lap at hmod ⊢
    omega

/-! ### Near segments -/

theorem finAt_insert (s : Stream) (sequence : UInt32) (payload : Bytes) (fin : Bool) (now : Nat) :
    (s.insert sequence payload fin now).finAt =
      if fin then some (sequence - s.origin + UInt32.ofNat payload.length) else s.finAt := by
  obtain ⟨t, ht, hi⟩ := s.insert_eq sequence payload fin now
  have hfin : t.finAt = if fin then some (sequence - s.origin + UInt32.ofNat payload.length)
      else s.finAt := by rw [ht]
  rw [hi, ← hfin]
  split_ifs
  · rfl
  · exact (t.fields_hold _ _).2.1
  · rw [release, (fields_releaseFrom _ _).2, finAt_append]

theorem finAt_relieve (limit : Nat) (s : Stream) : (s.relieve limit).finAt = s.finAt := by
  fun_induction relieve limit s with
  | case1 s hover t ht ih =>
    rcases hw : s.waiting with _ | ⟨f, later⟩
    · simp [skipGap?_nil hw] at ht
    · rw [skipGap?_cons hw, Option.some.injEq] at ht
      rw [ih, ← ht, release, (fields_releaseFrom _ _).2]
  | case2 => rfl
  | case3 => rfl

/-- A near segment leaves the next byte, and all that waits, within reach of the former next
byte. -/
theorem Close.insert_within (hc : s.Close) {sequence : UInt32} {payload : Bytes} {fin : Bool}
    {now : Nat} (hnear : s.IsNear (.insert sequence payload fin now)) :
    distance s.next (s.insert sequence payload fin now).next ≤ reach ∧
      ∀ e ∈ (s.insert sequence payload fin now).waiting, Within s.next e := by
  obtain ⟨t, ht, hi⟩ := s.insert_eq sequence payload fin now
  have hw : t.waiting = s.waiting := by rw [ht]
  have hn : t.next = s.next := by rw [ht]
  have ho : t.origin = s.origin := by rw [ht]
  have hwithin : ∀ e ∈ t.waiting, Within t.next e := by
    rw [hw, hn]
    exact fun e he => (hc e he).2
  have hneart : t.IsNear (.insert sequence payload fin now) := by
    simpa only [IsNear, hn, ho] using hnear
  rw [hi, ← ho, ← hn]
  split
  · exact ⟨by simp [distance_self], hwithin⟩
  split
  · rename_i hahead
    obtain ⟨-, -, hnext, -⟩ := t.fields_hold (sequence - t.origin) payload
    rw [hnext]
    refine ⟨by simp [distance_self], fun e he => ?_⟩
    rcases mem_hold he with rfl | he
    · exact (within_of_isNear hneart hahead).2
    · exact hwithin e he
  · obtain ⟨-, hle, hsuf, -⟩ := releases_releaseFrom
      (s := t.append (sequence - t.origin) payload) hwithin (distance_append_le hneart)
    rw [release, waiting_append]
    exact ⟨hle, fun e he => hwithin e (hsuf.mem he)⟩

/-- Giving up gaps between what lies within reach of a position leaves the next byte there. -/
theorem Close.relieve (hlow : base.toNat + reach < lap) (limit : Nat) (hc : s.Close)
    (ha : s.Accounted) (hw : ∀ e ∈ s.waiting, Within base e) (hs : distance base s.next ≤ reach) :
    (s.relieve limit).Close ∧ distance base (s.relieve limit).next ≤ reach := by
  fun_induction Stream.relieve limit s with
  | case1 s hover t ht ih =>
    have ha' := ha.skipGap? ht
    rcases hcase : s.waiting with _ | ⟨f, later⟩
    · simp [skipGap?_nil hcase] at ht
    rw [skipGap?_cons hcase, Option.some.injEq] at ht
    subst ht
    have hf : distance base f.1 ≤ reach := Nat.le_of_add_right_le (hw f (by simp [hcase]))
    obtain ⟨-, hle, hsuf, -⟩ := releases_releaseFrom (s := { s with next := f.1 }) hw hf
    exact ih (close_release base (receding_of_inOrder_of_low ha.inOrder hw hlow) hw hf) ha'
      (fun e he => hw e (hsuf.mem he)) hle
  | case2 => exact ⟨hc, hs⟩
  | case3 => exact ⟨hc, hs⟩

/-- A stream that is not over: what waits is close to the next byte, and the closing position, if
there is one, lies within reach after it. -/
structure UnderWay (s : Stream) : Prop where
  accounted : s.Accounted
  close : s.Close
  closing : ∀ fin ∈ s.finAt, s.next.toNat < fin.toNat ∧ fin.toNat ≤ s.next.toNat + reach

theorem underWay_start (origin : UInt32) (now : Nat) : (start origin now).UnderWay where
  accounted := accounted_start origin now
  close := close_start origin now
  closing := by simp [start]

/-- Whether what is taken in does not close the stream before its first byte. -/
def ClosesAfterStart (s : Stream) : Op → Prop
  | .insert sequence payload fin _ =>
    fin = true → 0 ≤ s.unwrapped (sequence - s.origin + UInt32.ofNat payload.length)
  | .skipGap => True

instance (s : Stream) : ∀ op, Decidable (s.ClosesAfterStart op)
  | .insert .. => inferInstanceAs (Decidable (_ → _))
  | .skipGap => inferInstanceAs (Decidable True)

/-- The closing position that a near segment states is within reach of the next byte. -/
theorem unwrapped_closing {sequence : UInt32} {payload : Bytes} {fin : Bool} {now : Nat}
    (hnear : s.IsNear (.insert sequence payload fin now)) :
    s.next.toNat ≤ s.unwrapped (sequence - s.origin + UInt32.ofNat payload.length) + reach ∧
      s.unwrapped (sequence - s.origin + UInt32.ofNat payload.length) ≤ s.next.toNat + reach := by
  simp only [IsNear] at hnear
  generalize sequence - s.origin = position at hnear
  have := position.toNat_lt
  have := s.next.toNat_lt
  simp only [unwrapped, isAhead, distance, reach, Bool.and_eq_true, decide_eq_true_eq,
    UInt32.lt_iff_toNat_lt, UInt32.toNat_sub, UInt32.toNat_add, UInt32.toNat_ofNat,
    UInt32.toNat_ofNat'] at hnear ⊢
  split_ifs <;> omega

/-- A near segment of a stream that is not over, whose next byte is not in the last quarter of the
sequence space, leaves the closing position on its lap; and if the stream is not finished then, it
is not over. -/
theorem UnderWay.insert (h : s.UnderWay) (hlow : s.next.toNat + reach < lap) {sequence : UInt32}
    {payload : Bytes} {fin : Bool} {now : Nat}
    (hnear : s.IsNear (.insert sequence payload fin now))
    (hstart : s.ClosesAfterStart (.insert sequence payload fin now)) (limit : Nat)
    (ht : (s.insert sequence payload fin now).relieve limit = t) :
    t.ClosesOnLap ∧ (t.isFinished = false → t.UnderWay) := by
  have haccounted := h.accounted.insert sequence payload fin now
  obtain ⟨hnext, hwithin⟩ := h.close.insert_within hnear
  have hside := h.close.onOneSide (by unfold lap at hlow; omega) h.accounted
  obtain ⟨hclose, hdist⟩ := (h.close.insert h.accounted hside hnear).relieve hlow limit haccounted
    hwithin hnext
  have hmoved := toNat_eq_add_distance (by omega : s.next.toNat + distance s.next
    ((s.insert sequence payload fin now).relieve limit).next < lap)
  have hfin : t.finAt = if fin then some (sequence - s.origin + UInt32.ofNat payload.length)
      else s.finAt := by rw [← ht, finAt_relieve, finAt_insert]
  have haccounted' := (haccounted.relieve limit).1
  rw [ht] at hclose hdist hmoved haccounted'
  have hnear' : ∀ f ∈ t.finAt, s.next.toNat ≤ f.toNat + reach ∧ f.toNat ≤ s.next.toNat + reach := by
    intro f hf
    rw [hfin] at hf
    split at hf
    · rename_i hclosing
      obtain rfl := Option.some.inj hf
      have hbounds := unwrapped_closing hnear
      have hmod := (s.unwrapped_bounds
        (sequence - s.origin + UInt32.ofNat payload.length)).2.2
      have hpos := hstart hclosing
      unfold lap at hlow hmod
      omega
    · have := h.closing f hf
      omega
  have hplace : ∀ f ∈ t.finAt, t.unwrapped f = f.toNat := by
    intro f hf
    have := hnear' f hf
    unfold reach at this hdist
    exact unwrapped_eq_toNat (by omega) (by omega)
  refine ⟨fun f hf => ?_, fun hopen => ⟨haccounted', hclose, fun f hf => ?_⟩⟩
  · rw [hplace f hf]
    have := f.toNat_lt
    unfold lap
    omega
  · have hlt : ¬ f.toNat ≤ t.next.toNat := by
      rw [← isFinished_iff_le hf, hopen]
      simp
    have := hnear' f hf
    omega

end Stream

namespace Pool

variable {p : Pool} {flow : Flow} {ending : Ending}

/-! ### Calls -/

/-- The stream that a call takes a segment into, and the segment. -/
def target? (p : Pool) : Call → Option (Stream × Stream.Op)
  | .assemble segment payload now =>
    (p.streamFor? segment payload now).map (·, .insert segment.start payload segment.fin now)
  | _ => none

/-- The stream that a call takes a segment into, when it has been taken in and the ceiling of one
stream is kept. -/
def taken? (p : Pool) (c : Call) : Option Stream :=
  (p.target? c).map fun x => (x.1.perform x.2).relieve p.limits.perStream

/-- Whether a segment starts and ends within reach of the next byte of its stream. -/
def TakesNear (p : Pool) (c : Call) : Prop :=
  ∀ x ∈ p.target? c, x.1.IsNear x.2

/-- Whether the stream that takes in a segment has its next byte before the last quarter of the
sequence space. -/
def TakesLow (p : Pool) (c : Call) : Prop :=
  ∀ x ∈ p.target? c, x.1.next.toNat + reach < lap

/-- Whether no segment closes its stream before the first byte. -/
def ClosesAfterStart (p : Pool) (c : Call) : Prop :=
  ∀ x ∈ p.target? c, x.1.ClosesAfterStart x.2

/-- Whether the stream that has taken in a segment has its closing position on the lap of its next
byte. -/
def ClosesOnLap (p : Pool) (c : Call) : Prop :=
  ∀ s ∈ p.taken? c, s.ClosesOnLap

/-- Whether the stream that has taken in a segment counts as finished exactly if everything before
its closing position has been passed. -/
def FinishedWhenPassed (p : Pool) (c : Call) : Prop :=
  ∀ s ∈ p.taken? c, s.isFinished = true ↔ s.IsPassed

/-- Whether a segment completes its stream as closed exactly if everything before the closing
position has been passed, unless it resets the stream or there is not a byte to deliver. -/
def CompletesWhenPassed (p : Pool) : Call → Prop
  | .assemble segment payload now => ∀ s ∈ p.taken? (.assemble segment payload now), ∀ done,
      done ∈ (p.call (.assemble segment payload now)).2 ∧ done.ending = .fin ↔
        segment.rst = false ∧ s.IsPassed ∧ s.finish ≠ [] ∧ done = ⟨segment.flow, s.finish, .fin⟩
  | _ => True

/-- Whether something holds at each call of a run. -/
def Along (P : Pool → Call → Prop) (p : Pool) : List Call → Prop
  | [] => True
  | c :: later => P p c ∧ (p.call c).1.Along P later

theorem Along.imp {P Q : Pool → Call → Prop} (hpq : ∀ p c, P p c → Q p c) :
    ∀ {calls : List Call} {p : Pool}, p.Along P calls → p.Along Q calls
  | [], _, _ => trivial
  | _ :: _, _, h => ⟨hpq _ _ h.1, h.2.imp hpq⟩

instance : DecidableRel TakesNear := fun p c =>
  inferInstanceAs (Decidable (∀ x ∈ p.target? c, _))

instance : DecidableRel TakesLow := fun p c =>
  inferInstanceAs (Decidable (∀ x ∈ p.target? c, _))

instance : DecidableRel ClosesAfterStart := fun p c =>
  inferInstanceAs (Decidable (∀ x ∈ p.target? c, _))

instance : DecidableRel ClosesOnLap := fun p c =>
  inferInstanceAs (Decidable (∀ s ∈ p.taken? c, s.ClosesOnLap))

instance decidableAlong (P : Pool → Call → Prop) [DecidableRel P] :
    ∀ (p : Pool) (calls : List Call), Decidable (p.Along P calls)
  | _, [] => inferInstanceAs (Decidable True)
  | p, c :: later =>
    have := decidableAlong P (p.call c).1 later
    inferInstanceAs (Decidable (_ ∧ _))

theorem assemble_of_taken? {segment : Segment} {payload : Bytes} {now : Nat} {s : Stream}
    (h : s ∈ p.taken? (.assemble segment payload now)) :
    ∃ before, p.streamFor? segment payload now = some before ∧
      (before.insert segment.start payload segment.fin now).relieve p.limits.perStream = s ∧
      p.assemble segment payload now =
        let concluded := (p.keep segment.flow before s).conclude segment.flow (ending? segment s)
        (concluded.1.enforceTotal.1, concluded.2.toList ++ concluded.1.enforceTotal.2) := by
  simp only [taken?, target?, Option.map_map, Option.mem_def, Option.map_eq_some_iff] at h
  obtain ⟨before, hfor, rfl⟩ := h
  refine ⟨before, hfor, rfl, ?_⟩
  simp only [assemble, hfor]
  rfl

/-! ### Completed streams -/

/-- What is forced out is not completed as closed. -/
theorem ending_of_enforceTotal {done : Completed} (h : done ∈ p.enforceTotal.2) :
    done.ending = .evicted := by
  fun_induction enforceTotal p with
  | case1 => simp at h
  | case2 p hover victim hv first rest ih =>
    rcases List.mem_append.1 h with h | h
    · exact ending_of_complete (Option.mem_toList.1 h)
    · exact ih h
  | case3 => simp at h

theorem streams_enforceTotal_subset (p : Pool) : p.enforceTotal.1.streams ⊆ p.streams := by
  fun_induction enforceTotal p with
  | case1 => exact List.Subset.refl _
  | case2 p hover victim hv first rest =>
    rename_i ih
    exact List.Subset.trans ih (streams_complete_subset { p with evictions := p.evictions + 1 } ..)
  | case3 => exact List.Subset.refl _

theorem complete_keep (p : Pool) (flow : Flow) (before after : Stream) (ending : Ending) :
    ((p.keep flow before after).complete flow ending).2 =
      if after.finish.isEmpty then none else some ⟨flow, after.finish, ending⟩ := by
  have hfind : (p.keep flow before after).find? flow = some after := by
    rw [find?, keep, find?_put_self]
    rfl
  simp only [complete, hfind]

theorem ending?_eq_fin_iff {segment : Segment} {s : Stream} :
    ending? segment s = some .fin ↔ segment.rst = false ∧ s.isFinished = true := by
  unfold ending?
  cases segment.rst <;> cases s.isFinished <;> simp

theorem ClosesOnLap.completesWhenPassed {c : Call} (h : p.ClosesOnLap c) :
    p.CompletesWhenPassed c := by
  cases c with
  | flushOlderThan cutoff => trivial
  | flushAll => trivial
  | list order => trivial
  | assemble segment payload now =>
    intro s hs done
    obtain ⟨before, hfor, -, hp⟩ := assemble_of_taken? hs
    have hpassed := Stream.isFinished_iff_isPassed.2 (h s hs)
    simp only [call, hp, List.mem_append, Option.mem_toList]
    constructor
    · rintro ⟨hdone | hdone, hfin⟩
      · rcases he : ending? segment s with _ | ending
        · simp [he, conclude] at hdone
        · simp only [he, conclude, complete_keep] at hdone
          split at hdone
          · cases hdone
          · rename_i hne
            obtain rfl := Option.some.inj hdone
            obtain rfl : ending = .fin := hfin
            obtain ⟨hrst, hover⟩ := ending?_eq_fin_iff.1 he
            exact ⟨hrst, hpassed.1 hover, by simpa using hne, rfl⟩
      · rw [ending_of_enforceTotal hdone] at hfin
        cases hfin
    · rintro ⟨hrst, hover, hne, rfl⟩
      refine ⟨.inl ?_, rfl⟩
      rw [ending?_eq_fin_iff.2 ⟨hrst, hpassed.2 hover⟩, conclude, complete_keep,
        if_neg (by simpa using hne)]

/-! ### Runs -/

/-- A call leaves the streams that were live, and the one that took in its segment unless that is
finished. -/
theorem mem_streams_call {c : Call} {e : Flow × Stream} (he : e ∈ (p.call c).1.streams) :
    e ∈ p.streams ∨ e.2 ∈ p.taken? c ∧ e.2.isFinished = false := by
  cases c with
  | flushOlderThan cutoff => exact .inl (streams_completeAll_subset _ _ p he)
  | flushAll => exact .inl (streams_completeAll_subset _ _ p he)
  | list order => exact .inl he
  | assemble segment payload now =>
    rcases hfor : p.streamFor? segment payload now with _ | before
    · left
      simpa only [call, assemble, hfor] using he
    obtain ⟨s, hs⟩ : ∃ s, s ∈ p.taken? (.assemble segment payload now) := by
      simp [taken?, target?, hfor]
    obtain ⟨before, -, -, hp⟩ := assemble_of_taken? hs
    simp only [call, hp] at he
    have he := streams_enforceTotal_subset _ he
    rcases hending : ending? segment s with _ | ending
    · rw [hending] at he
      have hopen : s.isFinished = false := by
        cases hover : s.isFinished
        · rfl
        · cases hrst : segment.rst <;> simp [ending?, hover, hrst] at hending
      rcases mem_put he with rfl | he
      · exact .inr ⟨hs, hopen⟩
      · exact .inl he
    · rw [hending, conclude] at he
      rcases mem_put (streams_complete_subset _ _ _ he) with rfl | hkept
      · -- The stream of the segment has been completed, so it is not among those that stay.
        have hnone := find?_complete_self (p.keep segment.flow before s) segment.flow ending
        have := isSome_find?_iff.2 (List.mem_map_of_mem he)
        simp [hnone] at this
      · exact .inl hkept

/-- A near segment of a pool whose streams are not over leaves its closing position on the lap, and
the streams that stay are not over. -/
theorem underWay_call (h : ∀ e ∈ p.streams, e.2.UnderWay) {c : Call} (hnear : p.TakesNear c)
    (hlow : p.TakesLow c) (hstart : p.ClosesAfterStart c) :
    p.ClosesOnLap c ∧ ∀ e ∈ (p.call c).1.streams, e.2.UnderWay := by
  have hstep : ∀ s ∈ p.taken? c, s.ClosesOnLap ∧ (s.isFinished = false → s.UnderWay) := by
    intro s hs
    cases c with
    | flushOlderThan cutoff => cases hs
    | flushAll => cases hs
    | list order => cases hs
    | assemble segment payload now =>
      obtain ⟨before, hfor, hrelieved, -⟩ := assemble_of_taken? hs
      have hmem : (before, Stream.Op.insert segment.start payload segment.fin now) ∈
          p.target? (.assemble segment payload now) := by simp [target?, hfor]
      have hbefore : before.UnderWay := by
        rcases mem_or_start_of_streamFor? hfor with hlive | rfl
        · exact h _ hlive
        · exact Stream.underWay_start ..
      exact hbefore.insert (hlow _ hmem) (hnear _ hmem) (hstart _ hmem) _ hrelieved
  refine ⟨fun s hs => (hstep s hs).1, fun e he => ?_⟩
  rcases mem_streams_call he with he | ⟨hs, hopen⟩
  · exact h e he
  · exact (hstep _ hs).2 hopen

theorem along_closesOnLap : ∀ {calls : List Call} {p : Pool}, (∀ e ∈ p.streams, e.2.UnderWay) →
    p.Along TakesNear calls → p.Along TakesLow calls → p.Along ClosesAfterStart calls →
      p.Along ClosesOnLap calls
  | [], _, _, _, _, _ => trivial
  | c :: later, p, h, hnear, hlow, hstart => by
    obtain ⟨hlap, hstay⟩ := underWay_call h hnear.1 hlow.1 hstart.1
    exact ⟨hlap, along_closesOnLap hstay hnear.2 hlow.2 hstart.2⟩

theorem along_finishedWhenPassed_iff {calls : List Call} :
    p.Along FinishedWhenPassed calls ↔ p.Along ClosesOnLap calls :=
  have h : ∀ p c, FinishedWhenPassed p c ↔ ClosesOnLap p c := fun _ _ =>
    forall₂_congr fun _ _ => Stream.isFinished_iff_isPassed
  ⟨.imp fun p c => (h p c).1, .imp fun p c => (h p c).2⟩

/-- Along a run, streams count as finished exactly when everything before their closing position has
been passed, if and only if that position is on the lap of the next byte after each segment; then
they are completed as closed at that moment and at no other. It is so on every run of near segments
that come before the next byte of their stream is in the last quarter of the sequence space, and do
not close it before its first byte. -/
theorem finished_when_passed_iff (limits : Limits) (calls : List Call) :
    ((empty limits).Along FinishedWhenPassed calls ↔ (empty limits).Along ClosesOnLap calls) ∧
      ((empty limits).Along ClosesOnLap calls → (empty limits).Along CompletesWhenPassed calls) ∧
      ((empty limits).Along TakesNear calls → (empty limits).Along TakesLow calls →
        (empty limits).Along ClosesAfterStart calls → (empty limits).Along ClosesOnLap calls) :=
  ⟨along_finishedWhenPassed_iff, .imp fun _ _ => ClosesOnLap.completesWhenPassed,
    along_closesOnLap (by simp [empty])⟩

/-- The sender closes beyond a gap, and the stream is over when the gap has been filled. -/
theorem finished_when_gap_filled :
    let a := Endpoint.v4 ⟨1⟩ 1
    let b := Endpoint.v4 ⟨2⟩ 2
    let calls : List Call := [.assemble ⟨a, b, 0x9FFFFFF0, true, false, false⟩ [] 0,
      .assemble ⟨a, b, 0x9FFFFFF4, false, true, false⟩ [100, 101] 1,
      .assemble ⟨a, b, 0x9FFFFFF1, false, false, false⟩ [97, 98, 99] 2]
    (empty ⟨2, 2⟩).Along TakesNear calls ∧ (empty ⟨2, 2⟩).Along FinishedWhenPassed calls ∧
      (empty ⟨2, 2⟩).Along CompletesWhenPassed calls := by
  intro a b calls
  have hnear : (empty ⟨2, 2⟩).Along TakesNear calls := by decide +kernel
  obtain ⟨hiff, hcompletes, hlap⟩ := finished_when_passed_iff ⟨2, 2⟩ calls
  have h := hlap hnear (by decide +kernel) (by decide +kernel)
  exact ⟨hnear, hiff.2 h, hcompletes h⟩

/-- The segments of one sender, each beyond the gap that the next one makes give up, until the next
byte is 31 bytes before the end of the sequence space. -/
def nearTheEnd : List Call :=
  (0xFFFFFFFF, true, []) :: ([0x3FFFFFF0, 0x3FFFFFFF, 0x7FFFFFF0, 0x7FFFFFFF, 0xBFFFFFF0,
      0xBFFFFFFF, 0xFFFFFFE0, 0xFFFFFFE8].map (·, false, [97])) |>.map fun x =>
    .assemble ⟨.v4 ⟨1⟩ 1, .v4 ⟨2⟩ 2, x.1, x.2.1, false, false⟩ x.2.2 0

/-- A sender who closes beyond the end of the sequence space ends the stream at once, although the
31 bytes before that are missing. One who closes before it does not end the stream, although the
next byte has passed the end. -/
theorem closed_across_the_end :
    let a := Endpoint.v4 ⟨1⟩ 1
    let b := Endpoint.v4 ⟨2⟩ 2
    let beforeEnd := nearTheEnd ++ [.assemble ⟨a, b, 0xFFFFFFE1, false, false, false⟩
      [98, 98, 98, 98, 98, 98, 98] 0]
    let closing := Call.assemble ⟨a, b, 8, false, true, false⟩ [] 0
    let passing := beforeEnd ++ [.assemble ⟨a, b, 0xFFFFFFF0, false, true, false⟩ [] 0,
      .assemble ⟨a, b, 0xFFFFFFE9, false, false, false⟩ (List.replicate 32 99) 0]
    let p := (empty ⟨1, 9⟩).after beforeEnd
    ((empty ⟨1, 9⟩).Along TakesNear (beforeEnd ++ [closing]) ∧
        (p.find? (.between a b)).map (fun s => distance s.next 8) = some 31 ∧
        (p.call closing).2 = [⟨.between a b, [97, 97, 97, 97, 97, 97, 97,
          98, 98, 98, 98, 98, 98, 98, 97], .fin⟩] ∧
        ¬ (empty ⟨1, 9⟩).Along FinishedWhenPassed (beforeEnd ++ [closing])) ∧
      (empty ⟨1, 9⟩).Along TakesNear passing ∧
        (((empty ⟨1, 9⟩).after passing).find? (.between a b)).map
          (fun s => (s.finAt, s.next)) = some (some 0xFFFFFFF0, 9) ∧
        ¬ (empty ⟨1, 9⟩).Along FinishedWhenPassed passing := by
  intro a b beforeEnd closing passing p
  have hmissing : ¬ (empty ⟨1, 9⟩).Along ClosesOnLap (beforeEnd ++ [closing]) := by decide +kernel
  have hpassed : ¬ (empty ⟨1, 9⟩).Along ClosesOnLap passing := by decide +kernel
  exact ⟨⟨by decide +kernel, by decide +kernel, by decide +kernel,
      fun h => hmissing (along_finishedWhenPassed_iff.1 h)⟩,
    by decide +kernel, by decide +kernel, fun h => hpassed (along_finishedWhenPassed_iff.1 h)⟩

end Pool

end Trawl.Reassembly
