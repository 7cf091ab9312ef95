import Mathlib.Data.List.Induction
import Trawl.Proofs.Reassembly.Calls
import Trawl.Proofs.Reassembly.Coverage

/-!
# Slices in any order

A byte string that is sent in slices arrives whole, in whatever order the slices come, however often
and however they overlap. Its stream is completed by the very call after which its sender has closed
and the slices that came cover it, and by no call before (`Pool.Gathering.call`).
-/

namespace Trawl.Reassembly

/-- A slice of a byte string as a segment carries it. -/
structure Carried where
  offset : Nat
  length : Nat
  /-- Whether the sender closes after it. -/
  fin : Bool
  time : Nat
  deriving DecidableEq, Repr

/-- The pages that slices would take up if all of them had to wait. -/
def pagesCarried (xs : List Carried) : Nat :=
  (xs.map fun x => pagesFor x.length).sum

/-- Whether a slice lies within a byte string, and at its end if the sender closes after it. -/
def Carried.Fits (b : Bytes) (x : Carried) : Prop :=
  x.offset + x.length ≤ b.length ∧ (x.fin = true → x.offset + x.length = b.length)

/-- Whether a place lies in one of some slices. -/
def Reached (xs : List Carried) (i : Nat) : Prop :=
  ∃ x ∈ xs, x.offset ≤ i ∧ i < x.offset + x.length

/-- Whether the sender has closed and slices cover a byte string. -/
def Complete (b : Bytes) (xs : List Carried) : Prop :=
  (∃ x ∈ xs, x.fin = true) ∧ ∀ i < b.length, Reached xs i

/-- The SYN before a byte string whose first byte has sequence number `first`. -/
def opening (source target : Endpoint) (first : UInt32) (time : Nat) : Call :=
  .assemble ⟨source, target, first - 1, true, false, false⟩ [] time

/-- The segment that carries a slice. -/
def Carried.call (source target : Endpoint) (first : UInt32) (b : Bytes) (x : Carried) : Call :=
  .assemble ⟨source, target, first + UInt32.ofNat x.offset, false, x.fin, false⟩
    (b.field x.offset x.length) x.time

theorem reached_concat {xs : List Carried} {x : Carried} {i : Nat} :
    Reached (xs ++ [x]) i ↔ Reached xs i ∨ x.offset ≤ i ∧ i < x.offset + x.length := by
  simp only [Reached, List.mem_append, List.mem_singleton, or_and_right, exists_or,
    exists_eq_left]

theorem Complete.append {b : Bytes} {xs : List Carried} (h : Complete b xs) (ys : List Carried) :
    Complete b (xs ++ ys) := by
  obtain ⟨⟨x, hx, hfin⟩, hall⟩ := h
  refine ⟨⟨x, List.mem_append_left _ hx, hfin⟩, fun i hi => ?_⟩
  obtain ⟨y, hy, hi⟩ := hall i hi
  exact ⟨y, List.mem_append_left _ hy, hi⟩

theorem pagesCarried_concat (xs : List Carried) (x : Carried) :
    pagesCarried (xs ++ [x]) = pagesCarried xs + pagesFor x.length := by
  simp [pagesCarried]

theorem pagesCarried_le {xs ys : List Carried} (h : xs <+: ys) :
    pagesCarried xs ≤ pagesCarried ys := by
  obtain ⟨zs, rfl⟩ := h
  simp [pagesCarried]

theorem length_field {b : Bytes} {offset length : Nat} (h : offset + length ≤ b.length) :
    (b.field offset length).length = length := by
  rw [Bytes.field, List.length_take, List.length_drop]
  omega

namespace Stream

/-- The stream has what some slices of a byte string carried, and counts no more pages than they
take up. -/
structure Gathers (first : UInt32) (b : Bytes) (xs : List Carried) (s : Stream) : Prop
    extends From b s where
  accounted : s.Accounted
  origin : s.origin = first
  has : ∀ i, s.Has i ↔ Reached xs i
  finAt : s.finAt = if xs.any (·.fin) then some (UInt32.ofNat b.length) else none
  pages : s.waitingPages ≤ pagesCarried xs

variable {first : UInt32} {b : Bytes} {xs : List Carried} {s : Stream}

theorem gathers_start (first : UInt32) (b : Bytes) (now : Nat) :
    (start first now).Gathers first b [] where
  next_le := Nat.zero_le _
  data_eq := by simp [start, data]
  waiting := by simp [start]
  accounted := accounted_start first now
  origin := rfl
  has i := by simp [start, Has, Reached]
  finAt := rfl
  pages := Nat.zero_le _

theorem waitingPages_releaseFrom_le : ∀ (held : List (UInt32 × Bytes)) (s : Stream),
    (s.releaseFrom held).waitingPages ≤ s.waitingPages
  | [], _ => Nat.le_refl _
  | (position, segment) :: later, s => by
    simp only [releaseFrom]
    split
    · exact Nat.le_refl _
    · refine Nat.le_trans (waitingPages_releaseFrom_le later _) ?_
      rw [waitingPages_append]
      exact Nat.sub_le ..

/-- A segment adds no more than its own pages. -/
theorem waitingPages_insert_le (s : Stream) (sequence : UInt32) (payload : Bytes) (fin : Bool)
    (now : Nat) :
    (s.insert sequence payload fin now).waitingPages
      ≤ s.waitingPages + pagesFor payload.length := by
  obtain ⟨t, ht, hi⟩ := s.insert_eq sequence payload fin now
  have hw : t.waitingPages = s.waitingPages := by rw [ht]
  rw [hi, ← hw]
  split
  · exact Nat.le_add_right ..
  split
  · simp only [hold]
    split
    · split
      · exact Nat.le_add_right ..
      · show t.waitingPages - _ + _ ≤ _
        omega
    · exact Nat.le_refl _
  · refine Nat.le_trans (waitingPages_releaseFrom_le _ _) ?_
    rw [waitingPages_append]
    exact Nat.le_add_right ..

theorem Gathers.insert (hb : b.length < 0x80000000) (h : s.Gathers first b xs) {x : Carried}
    (hx : x.Fits b) :
    (s.insert (first + UInt32.ofNat x.offset) (b.field x.offset x.length) x.fin x.time).Gathers
      first b (xs ++ [x]) := by
  obtain ⟨hle, hend⟩ := hx
  have hlen := length_field hle
  have hrel : first + UInt32.ofNat x.offset - s.origin = UInt32.ofNat x.offset := by
    rw [h.origin, UInt32.add_comm, UInt32.add_sub_cancel]
  have hoff : (UInt32.ofNat x.offset).toNat = x.offset := by
    rw [UInt32.toNat_ofNat']
    omega
  have hse : IsSlice b (first + UInt32.ofNat x.offset - s.origin, b.field x.offset x.length) := by
    rw [hrel]
    simp only [IsSlice, hoff, hlen, and_true]
    exact hle
  obtain ⟨hfrom, hhas, horigin, hfin⟩ := insert_slice hb h.toFrom h.accounted hse x.fin x.time
  rw [hrel] at hhas hfin
  refine ⟨hfrom, h.accounted.insert .., horigin.trans h.origin, fun i => ?_, ?_, ?_⟩
  · rw [hhas i, h.has i, reached_concat]
    simp only [Covers, hoff, hlen]
  · rw [hfin, h.finAt, List.any_append]
    cases hf : x.fin
    · simp [hf]
    · have : UInt32.ofNat x.offset + UInt32.ofNat x.length = UInt32.ofNat b.length := by
        rw [← hend hf, UInt32.ofNat_add]
      simp [hf, hlen, this]
  · rw [pagesCarried_concat]
    have := waitingPages_insert_le s (first + UInt32.ofNat x.offset) (b.field x.offset x.length)
      x.fin x.time
    rw [hlen] at this
    exact Nat.le_trans this (Nat.add_le_add_right h.pages _)

/-- A stream that has every place has released everything. -/
theorem Gathers.next_eq (h : s.Gathers first b xs) (hall : ∀ i < b.length, Reached xs i) :
    s.next.toNat = b.length := by
  refine Nat.le_antisymm h.next_le (Nat.not_lt.1 fun hlt => ?_)
  rcases (h.has _).2 (hall _ hlt) with hi | ⟨e, he, hle, -⟩
  · exact Nat.lt_irrefl _ hi
  · have := (h.waiting e he).1
    omega

theorem Gathers.isFinished_iff (hb : b.length < 0x80000000) (h : s.Gathers first b xs) :
    s.isFinished = true ↔ Complete b xs := by
  unfold isFinished Complete
  rw [h.finAt]
  by_cases hany : xs.any (·.fin) = true
  · rw [if_pos hany]
    simp only [List.any_eq_true] at hany
    have hlen : (UInt32.ofNat b.length).toNat = b.length := by
      rw [UInt32.toNat_ofNat']
      omega
    simp only [decide_eq_true_eq, UInt32.le_iff_toNat_le, hlen]
    refine ⟨fun hle => ⟨hany, fun i hi => (h.has i).1 (.inl (by omega))⟩, fun hc => ?_⟩
    exact Nat.le_of_eq (h.next_eq hc.2).symm
  · rw [if_neg hany]
    simp only [List.any_eq_true] at hany
    simp only [Bool.false_eq_true, false_iff]
    exact fun hc => hany hc.1

/-- A complete stream ends with the whole byte string. -/
theorem Gathers.finish_eq (h : s.Gathers first b xs) (hc : Complete b xs) : s.finish = b := by
  have hn := h.next_eq hc.2
  have hw : s.waiting = [] := by
    refine List.eq_nil_iff_forall_not_mem.2 fun e he => ?_
    obtain ⟨hlt, hle, -⟩ := h.waiting e he
    have := List.length_pos_iff.2 (h.accounted.nonempty e he)
    omega
  have hnone : s.skipGap? = none := by
    unfold skipGap?
    rw [hw]
  rw [finish_of_none hnone, h.data_eq, hn, List.take_length]

end Stream

namespace Pool

/-- One stream is live. -/
structure Alone (limits : Limits) (flow : Flow) (s : Stream) (p : Pool) : Prop where
  limits : p.limits = limits
  streams : p.streams = [(flow, s)]
  pages : p.pages = s.waitingPages

section Alone

variable {limits : Limits} {flow : Flow} {s : Stream} {p : Pool}

theorem Alone.find? (h : p.Alone limits flow s) : p.find? flow = some s := by
  simp [Pool.find?, h.streams]

theorem Alone.keep (h : p.Alone limits flow s) (after : Stream) :
    (p.keep flow s after).Alone limits flow after where
  limits := h.limits
  streams := by simp [Pool.keep, h.streams, put]
  pages := by
    simp only [Pool.keep, h.pages]
    omega

theorem Alone.complete (h : p.Alone limits flow s) (ending : Ending) (hd : s.finish ≠ []) :
    (p.complete flow ending).2 = some ⟨flow, s.finish, ending⟩ ∧
      (p.complete flow ending).1.streams = [] ∧ (p.complete flow ending).1.pages = 0 := by
  simp only [Pool.complete, h.find?]
  refine ⟨if_neg (by simpa using hd), ?_, ?_⟩
  · simp [without, h.streams]
  · simp [h.pages]

/-- A segment of the only stream, which its ceilings let be. -/
theorem Alone.assemble (h : p.Alone limits flow s) (segment : Segment) {payload : Bytes}
    {now : Nat} {after : Stream} (hflow : segment.flow = flow)
    (hi : s.insert segment.start payload segment.fin now = after)
    (hs : after.waitingPages ≤ limits.perStream) (ht : after.waitingPages ≤ limits.total) :
    (ending? segment after = none → (p.assemble segment payload now).2 = [] ∧
      (p.assemble segment payload now).1.Alone limits flow after) ∧
    ∀ ending, ending? segment after = some ending → after.finish ≠ [] →
      (p.assemble segment payload now).2 = [⟨flow, after.finish, ending⟩] ∧
        (p.assemble segment payload now).1.streams = [] ∧
        (p.assemble segment payload now).1.pages = 0 := by
  have hfor : p.streamFor? segment payload now = some s := by
    rw [streamFor?, hflow, h.find?]
  have hk := h.keep after
  simp only [Pool.assemble, hfor, hi, h.limits, Stream.relieve_of_le hs, hflow]
  refine ⟨fun he => ?_, fun ending he hd => ?_⟩
  · rw [he, conclude, enforceTotal_of_le (by rw [hk.pages, hk.limits]; exact ht)]
    exact ⟨rfl, hk⟩
  · obtain ⟨h₁, h₂, h₃⟩ := hk.complete ending hd
    rw [he, conclude, h₁, enforceTotal_of_le (by rw [h₃]; exact Nat.zero_le _)]
    exact ⟨rfl, h₂, h₃⟩

end Alone

section Gathering

variable {limits : Limits} {source target : Endpoint} {first : UInt32} {b : Bytes}

/-- One stream is live, which has what some slices carried. -/
def Gathering (limits : Limits) (source target : Endpoint) (first : UInt32) (b : Bytes)
    (xs : List Carried) (p : Pool) : Prop :=
  ∃ s : Stream, s.Gathers first b xs ∧ p.Alone limits (.between source target) s

/-- The SYN opens the stream and completes nothing. -/
theorem gathering_opening (limits : Limits) (source target : Endpoint) (first : UInt32) (b : Bytes)
    (opened : Nat) :
    ((empty limits).call (opening source target first opened)).2 = [] ∧
      Gathering limits source target first b []
        ((empty limits).call (opening source target first opened)).1 := by
  have hw : (Stream.start first opened).waitingPages = 0 := rfl
  have hsegment : (Segment.mk source target (first - 1) true false false).start = first := by
    simp [Segment.start]
  have hfor : (empty limits).streamFor? ⟨source, target, first - 1, true, false, false⟩ [] opened
      = some (.start first opened) := by
    simp [streamFor?, empty, find?, hsegment]
  have hi : (Stream.start first opened).insert first [] false opened = .start first opened := by
    simp [Stream.insert, Stream.start]
  have he : ending? ⟨source, target, first - 1, true, false, false⟩ (.start first opened)
      = none := by
    simp [ending?, Stream.isFinished, Stream.start]
  simp only [call, opening, assemble, hfor, hsegment, hi,
    Stream.relieve_of_le (hw ▸ Nat.zero_le _), he, conclude]
  rw [enforceTotal_of_le (by simp [keep, empty, hw])]
  exact ⟨rfl, _, Stream.gathers_start first b opened, rfl, rfl, rfl⟩

/-- What a slice leads to: it completes the stream if the slices cover the byte string by then. -/
theorem Gathering.call {xs : List Carried} {p : Pool} (hne : b ≠ []) (hb : b.length < 0x80000000)
    (h : Gathering limits source target first b xs p) {x : Carried} (hx : x.Fits b)
    (hs : pagesCarried (xs ++ [x]) ≤ limits.perStream)
    (ht : pagesCarried (xs ++ [x]) ≤ limits.total) :
    (¬ Complete b (xs ++ [x]) → (p.call (x.call source target first b)).2 = [] ∧
      Gathering limits source target first b (xs ++ [x])
        (p.call (x.call source target first b)).1) ∧
    (Complete b (xs ++ [x]) →
      (p.call (x.call source target first b)).2 = [⟨.between source target, b, .fin⟩] ∧
        (p.call (x.call source target first b)).1.streams = [] ∧
        (p.call (x.call source target first b)).1.pages = 0) := by
  obtain ⟨s, hg, ha⟩ := h
  have hafter := hg.insert hb hx
  generalize hi : s.insert _ _ _ _ = after at hafter
  have hfinished := hafter.isFinished_iff hb
  have hd := hafter.finish_eq
  obtain ⟨hopen, hover⟩ := ha.assemble
    ⟨source, target, first + UInt32.ofNat x.offset, false, x.fin, false⟩ rfl hi
    (Nat.le_trans hafter.pages hs) (Nat.le_trans hafter.pages ht)
  refine ⟨fun hc => ?_, fun hc => ?_⟩
  · obtain ⟨h₁, h₂⟩ := hopen (by simp [ending?, hfinished, hc])
    exact ⟨h₁, after, hafter, h₂⟩
  · have := hover .fin (by simp [ending?, hfinished, hc])
    rw [hd hc] at this
    exact this hne

/-- The stream stays live as long as the slices that came do not cover the byte string. -/
theorem gathering_after (limits : Limits) (source target : Endpoint) (first : UInt32) (opened : Nat)
    (hne : b ≠ []) (hb : b.length < 0x80000000) (xs : List Carried)
    (hfit : ∀ x ∈ xs, x.Fits b) (hs : pagesCarried xs ≤ limits.perStream)
    (ht : pagesCarried xs ≤ limits.total) (hc : ¬ Complete b xs) :
    Gathering limits source target first b xs
      ((empty limits).after
        (opening source target first opened :: xs.map (·.call source target first b))) := by
  induction xs using List.reverseRecOn with
  | nil => exact (gathering_opening limits source target first b opened).2
  | append_singleton xs x ih =>
    have hless := pagesCarried_le (List.prefix_append xs [x])
    have hg := ih (fun y hy => hfit y (List.mem_append_left _ hy)) (Nat.le_trans hless hs)
      (Nat.le_trans hless ht) fun h => hc (h.append _)
    have := ((hg.call hne hb (hfit x (by simp)) hs ht).1 hc).2
    rwa [List.map_append, ← List.cons_append, after_append]

/-- Slices of a byte string that come in any order after the SYN complete its stream by the call
after which they cover it and its sender has closed, as a whole, and by no call before. -/
theorem assemble_in_any_order (hne : b ≠ []) (hb : b.length < 0x80000000) (first : UInt32)
    (source target : Endpoint) (opened : Nat) (limits : Limits) (xs : List Carried)
    (hfit : ∀ x ∈ xs, x.Fits b) (hs : pagesCarried xs ≤ limits.perStream)
    (ht : pagesCarried xs ≤ limits.total) :
    ((empty limits).call (opening source target first opened)).2 = [] ∧
      ∀ before x later, xs = before ++ x :: later → ¬ Complete b before →
        let p := (empty limits).after
          (opening source target first opened :: before.map (·.call source target first b))
        let done := p.call (x.call source target first b)
        (¬ Complete b (before ++ [x]) → done.2 = []) ∧
          (Complete b (before ++ [x]) →
            done.2 = [⟨.between source target, b, .fin⟩] ∧
              done.1.find? (.between source target) = none ∧ done.1.pages = 0) := by
  refine ⟨(gathering_opening limits source target first b opened).1, ?_⟩
  rintro before x later rfl hc p done
  have hless := pagesCarried_le (List.prefix_append before (x :: later))
  have hless' : pagesCarried (before ++ [x]) ≤ pagesCarried (before ++ x :: later) :=
    pagesCarried_le ⟨later, by simp⟩
  have hg := gathering_after limits source target first opened hne hb before
    (fun y hy => hfit y (List.mem_append_left _ hy)) (Nat.le_trans hless hs)
    (Nat.le_trans hless ht) hc
  obtain ⟨hopen, hover⟩ := hg.call hne hb (hfit x (by simp)) (Nat.le_trans hless' hs)
    (Nat.le_trans hless' ht)
  refine ⟨fun h => (hopen h).1, fun h => ?_⟩
  obtain ⟨h₁, h₂, h₃⟩ := hover h
  refine ⟨h₁, ?_, h₃⟩
  show (done.1.streams.find? _).map _ = none
  rw [h₂]
  rfl

/-- Three slices of four bytes, the last one first, around the end of the sequence space. -/
theorem assemble_around_wrap :
    let b : Bytes := [97, 98, 99, 100]
    let source := Endpoint.v4 ⟨1⟩ 1
    let target := Endpoint.v4 ⟨2⟩ 2
    let p := (empty ⟨3, 3⟩).after [opening source target 0xfffffffe 0,
      Carried.call source target 0xfffffffe b ⟨2, 2, true, 5⟩,
      Carried.call source target 0xfffffffe b ⟨1, 2, false, 6⟩]
    (p.call (Carried.call source target 0xfffffffe b ⟨0, 2, false, 7⟩)).2
      = [⟨.between source target, b, .fin⟩] :=
  (((assemble_in_any_order (b := [97, 98, 99, 100]) (by decide) (by decide) 0xfffffffe (.v4 ⟨1⟩ 1)
    (.v4 ⟨2⟩ 2) 0 ⟨3, 3⟩ [⟨2, 2, true, 5⟩, ⟨1, 2, false, 6⟩, ⟨0, 2, false, 7⟩]
    (by simp [Carried.Fits]) (by decide) (by decide)).2
    [⟨2, 2, true, 5⟩, ⟨1, 2, false, 6⟩] ⟨0, 2, false, 7⟩ [] rfl
    (by unfold Complete Reached; decide)).2 (by unfold Complete Reached; decide)).1

end Gathering

end Pool

end Trawl.Reassembly
