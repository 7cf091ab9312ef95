import Trawl.Proofs.Reassembly.AnyOrder

/-!
# Where a stream begins

The first segment that carries a byte or a SYN opens a stream, and the stream begins where that
segment does. A segment from before that is the same as the part of it that lies within the stream
(`Pool.Gathering.call_trim`), and a SYN that comes later is an empty segment. So a byte string is
delivered from the first segment seen on, whether or not its SYN comes later, and what its sender
sent before that is missing even where it comes after the SYN.
-/

namespace Trawl.Reassembly

/-- A slice of a byte string as it arrives, perhaps behind the SYN of its sender. -/
structure Arrival extends Carried where
  syn : Bool
  deriving DecidableEq, Repr

/-- The part of a slice that lies in the byte string without its first `a` bytes. -/
def Carried.trim (a : Nat) (x : Carried) : Carried where
  offset := x.offset - a
  length := x.length - (a - x.offset)
  fin := x.fin
  time := x.time

namespace Arrival

/-- Whether the slice lies within a byte string, at its end if the sender closes after it, and at
its beginning if it comes with the SYN. -/
def Fits (b : Bytes) (x : Arrival) : Prop :=
  x.toCarried.Fits b ∧ (x.syn = true → x.offset = 0)

/-- Whether it opens a stream where there is none. -/
def Opens (x : Arrival) : Prop :=
  x.syn = true ∨ 0 < x.length

/-- The fields of the segment that carries it. The SYN takes up a sequence number of its own. -/
def segment (source target : Endpoint) (first : UInt32) (x : Arrival) : Segment :=
  ⟨source, target, first + UInt32.ofNat x.offset - (if x.syn then 1 else 0), x.syn, x.fin, false⟩

/-- The segment that carries it. -/
def call (source target : Endpoint) (first : UInt32) (b : Bytes) (x : Arrival) : Call :=
  .assemble (x.segment source target first) (b.field x.offset x.length) x.time

/-- The segment of its part that lies in the byte string without its first `a` bytes. -/
def trimmedCall (source target : Endpoint) (first : UInt32) (b : Bytes) (a : Nat)
    (x : Arrival) : Call :=
  (x.trim a).call source target (first + UInt32.ofNat a) (b.drop a)

end Arrival

/-- Whether the sender has closed and what arrived covers a byte string from place `a` on. -/
def CompleteFrom (a : Nat) (b : Bytes) (xs : List Arrival) : Prop :=
  (∃ x ∈ xs, x.fin = true) ∧
    ∀ i < b.length, a ≤ i → ∃ x ∈ xs, x.offset ≤ i ∧ i < x.offset + x.length

section Trim

variable {source target : Endpoint} {first : UInt32} {b : Bytes} {a : Nat} {x : Arrival}
  {xs : List Arrival}

theorem Arrival.start_segment (x : Arrival) :
    (x.segment source target first).start = first + UInt32.ofNat x.offset := by
  simp only [segment, Segment.start]
  split <;> simp

theorem Carried.Fits.trim {x : Carried} (h : x.Fits b) : (x.trim a).Fits (b.drop a) := by
  obtain ⟨hle, hfin⟩ := h
  simp only [Carried.Fits, Carried.trim, List.length_drop]
  exact ⟨by omega, fun hf => by have := hfin hf; omega⟩

theorem pagesCarried_trim_le : ∀ xs : List Arrival,
    pagesCarried (xs.map (·.trim a)) ≤ pagesCarried (xs.map (·.toCarried))
  | [] => Nat.le_refl _
  | x :: xs => by
    have h := pagesCarried_trim_le xs
    have hx : pagesFor (x.length - (a - x.offset)) ≤ pagesFor x.length := by
      unfold pagesFor
      exact Nat.div_le_div_right (by omega)
    simp only [pagesCarried, List.map_cons, List.sum_cons, Carried.trim] at h ⊢
    omega

theorem pagesCarried_trim_concat_le {arrived : List Arrival} (h : xs ++ [x] <+: arrived) :
    pagesCarried (xs.map (·.trim a) ++ [x.trim a]) ≤ pagesCarried (arrived.map (·.toCarried)) := by
  obtain ⟨rest, rfl⟩ := h
  refine Nat.le_trans (pagesCarried_le ?_) (pagesCarried_trim_le (a := a) (xs ++ [x] ++ rest))
  rw [List.map_append, List.map_append]
  exact List.prefix_append ..

/-- What opens a stream carries a byte, or stands before the first one. -/
theorem Arrival.offset_lt (hne : b ≠ []) (hx : x.Fits b) (hopens : x.Opens) :
    x.offset < b.length := by
  obtain ⟨⟨hle, -⟩, hsyn⟩ := hx
  have hpos := List.length_pos_iff.2 hne
  rcases hopens with h | h
  · have := hsyn h
    omega
  · omega

/-- The bytes from place `a` on are all bytes only if that is the first place. -/
theorem drop_eq_self_iff (ha : a < b.length) : b.drop a = b ↔ a = 0 := by
  refine ⟨fun h => ?_, fun h => by rw [h, List.drop_zero]⟩
  have := congrArg List.length h
  rw [List.length_drop] at this
  omega

theorem CompleteFrom.append (h : CompleteFrom a b xs) (ys : List Arrival) :
    CompleteFrom a b (xs ++ ys) := by
  obtain ⟨⟨x, hx, hfin⟩, hall⟩ := h
  refine ⟨⟨x, List.mem_append_left _ hx, hfin⟩, fun i hi ha => ?_⟩
  obtain ⟨y, hy, hi⟩ := hall i hi ha
  exact ⟨y, List.mem_append_left _ hy, hi⟩

theorem complete_trim_iff :
    Complete (b.drop a) (xs.map (·.trim a)) ↔ CompleteFrom a b xs := by
  simp only [Complete, CompleteFrom, Reached, List.mem_map, exists_exists_and_eq_and, Carried.trim,
    List.length_drop]
  refine and_congr_right fun _ => ⟨fun h i hi ha => ?_, fun h i hi => ?_⟩
  · obtain ⟨x, hx, hle, hlt⟩ := h (i - a) (by omega)
    exact ⟨x, hx, by omega, by omega⟩
  · obtain ⟨x, hx, hle, hlt⟩ := h (i + a) (by omega) (by omega)
    exact ⟨x, hx, by omega, by omega⟩

/-- The bytes of a slice from place `a` on. -/
theorem drop_field (b : Bytes) (offset length a : Nat) :
    (b.field offset length).drop (a - offset)
      = Bytes.field (b.drop a) (offset - a) (length - (a - offset)) := by
  simp only [Bytes.field, List.drop_take, List.drop_drop]
  congr 2
  omega

end Trim

namespace Stream

variable {b : Bytes} {s : Stream}

/-- What waits in a stream of known bytes lies ahead, so nothing is released without a segment. -/
theorem From.release_eq (hb : b.length < 0x80000000) (h : s.From b) : s.release = s := by
  obtain ⟨hle, -, hw⟩ := h
  obtain ⟨origin, next, slices, waiting, pages, finAt, seen⟩ := s
  rcases waiting with _ | ⟨⟨position, segment⟩, later⟩
  · rfl
  · obtain ⟨hlt, hslice, -⟩ := hw _ List.mem_cons_self
    simp only at hle hlt hslice
    have : isAhead position next = true := (isAhead_iff (by omega) (by omega)).2 hlt
    simp [release, releaseFrom, this]

theorem append_before {gap : Nat} (hgap : gap + s.next.toNat < 0x80000000) (payload : Bytes) :
    s.append (0 - UInt32.ofNat gap) payload = s.append 0 (payload.drop gap) := by
  have hpassed : (s.next - (0 - UInt32.ofNat gap)).toNat = gap + s.next.toNat := by
    simp only [UInt32.toNat_sub, UInt32.toNat_ofNat, UInt32.toNat_ofNat']
    omega
  simp only [append, hpassed, UInt32.sub_zero, List.drop_drop, List.length_drop]
  exact if_congr (by omega) rfl rfl

/-- A segment that begins `gap` bytes before the stream is the same as what is left of it without
these bytes. -/
theorem From.insert_before (gap : Nat) (payload : Bytes) {fin : Bool} (now : Nat)
    (hb : gap + b.length < 0x80000000) (h : s.From b) (hgap : 0 < gap)
    (hfin : fin = true → gap ≤ payload.length) :
    s.insert (s.origin - UInt32.ofNat gap) payload fin now
      = s.insert s.origin (payload.drop gap) fin now := by
  obtain ⟨t, ht, hi⟩ := s.insert_eq (s.origin - UInt32.ofNat gap) payload fin now
  obtain ⟨u, hu, hi'⟩ := s.insert_eq s.origin (payload.drop gap) fin now
  have hposition : s.origin - UInt32.ofNat gap - s.origin = 0 - UInt32.ofNat gap := by
    rw [← UInt32.toNat_inj]
    have := s.origin.toNat_lt
    simp only [UInt32.toNat_sub, UInt32.toNat_ofNat, UInt32.toNat_ofNat']
    omega
  have hclosing : fin = true → 0 - UInt32.ofNat gap + UInt32.ofNat payload.length
      = 0 + UInt32.ofNat (payload.drop gap).length := fun hf => by
    have := hfin hf
    rw [← UInt32.toNat_inj, List.length_drop]
    simp only [UInt32.toNat_add, UInt32.toNat_sub, UInt32.toNat_ofNat, UInt32.toNat_ofNat']
    omega
  have hut : u = t := by
    rw [hu, ht, UInt32.sub_self, hposition]
    cases fin
    · rfl
    · simp only [if_true, hclosing]
  have hfrom : t.From b := by
    rw [ht]
    exact ⟨h.next_le, h.data_eq, h.waiting⟩
  have hn := hfrom.next_le
  have hlate : isAhead (0 - UInt32.ofNat gap) t.next = false := by
    rw [← Bool.not_eq_true]
    simp only [isAhead, Bool.and_eq_true, decide_eq_true_eq, UInt32.lt_iff_toNat_lt,
      UInt32.toNat_sub, UInt32.toNat_ofNat, UInt32.toNat_ofNat']
    omega
  have hlate' : isAhead 0 t.next = false := by
    rw [← Bool.not_eq_true, isAhead_iff (by decide) (by omega)]
    simp
  rw [hi, hi', hut, UInt32.sub_self, hposition, hlate, hlate', append_before (by omega)]
  simp only [Bool.false_eq_true, if_false]
  by_cases hempty : payload.drop gap = []
  · have happend : t.append 0 [] = t := by simp [append]
    rw [hempty, happend, hfrom.release_eq (by omega)]
    simp
  · have : payload ≠ [] := fun he => hempty (by rw [he, List.drop_nil])
    simp [hempty, this]

end Stream

namespace Pool

variable {limits : Limits} {source target : Endpoint} {first : UInt32} {b : Bytes} {a : Nat}
  {x opener : Arrival} {xs : List Carried} {p : Pool}

/-- Of a segment for a live stream, the pool reads what it does to the stream and whether it resets
it. -/
theorem assemble_congr {s : Stream} {segment segment' : Segment} {payload payload' : Bytes}
    {now : Nat} (hfind : p.find? segment.flow = some s) (hflow : segment'.flow = segment.flow)
    (hrst : segment'.rst = segment.rst)
    (hi : s.insert segment.start payload segment.fin now
      = s.insert segment'.start payload' segment'.fin now) :
    p.assemble segment payload now = p.assemble segment' payload' now := by
  simp only [assemble, streamFor?, hflow, hfind, hi, ending?, hrst]

/-- A slice is to a stream that begins at place `a` as its part from there on. -/
theorem Gathering.call_trim (hb : b.length < 0x80000000) (ha : a ≤ b.length)
    (h : Gathering limits source target (first + UInt32.ofNat a) (b.drop a) xs p)
    (hx : x.Fits b) :
    p.call (x.call source target first b) = p.call (x.trimmedCall source target first b a) := by
  obtain ⟨s, hs, halone⟩ := h
  obtain ⟨⟨hle, hfin⟩, -⟩ := hx
  refine assemble_congr halone.find? rfl rfl ?_
  rw [x.start_segment]
  simp only [Arrival.segment, Segment.start, Carried.trim, Bool.false_eq_true, if_false]
  rw [← drop_field]
  by_cases hbefore : x.offset < a
  · have horigin : first + UInt32.ofNat x.offset = s.origin - UInt32.ofNat (a - x.offset) := by
      rw [hs.origin, ← UInt32.toNat_inj]
      simp only [UInt32.toNat_add, UInt32.toNat_sub, UInt32.toNat_ofNat']
      omega
    rw [Nat.sub_eq_zero_of_le (Nat.le_of_lt hbefore), horigin, ← hs.origin]
    have hlen := length_field hle
    have := hs.toFrom.insert_before (a - x.offset) (b.field x.offset x.length) x.time
      (by rw [List.length_drop]; omega) (by omega)
      (fun hf : x.fin = true => by have := hfin hf; omega)
    simpa using this
  · have hsame : first + UInt32.ofNat a + UInt32.ofNat (x.offset - a)
        = first + UInt32.ofNat x.offset := by
      rw [UInt32.add_assoc, ← UInt32.ofNat_add, Nat.add_sub_cancel' (Nat.not_lt.1 hbefore)]
    rw [hsame, Nat.sub_eq_zero_of_le (Nat.not_lt.1 hbefore), List.drop_zero]

/-- The pool in which a stream has just been opened. -/
def opened (limits : Limits) (flow : Flow) (first : UInt32) (now : Nat) : Pool :=
  { empty limits with streams := [(flow, .start first now)] }

theorem gathering_opened (limits : Limits) (source target : Endpoint) (first : UInt32) (b : Bytes)
    (now : Nat) :
    Gathering limits source target first b [] (opened limits (.between source target) first now) :=
  ⟨_, Stream.gathers_start first b now, rfl, rfl, rfl⟩

/-- A segment that opens a stream is taken into it where it begins. -/
theorem call_of_opens (hx : x.Opens) (hfit : x.Fits b) :
    (empty limits).call (x.call source target first b)
      = (opened limits (.between source target) (first + UInt32.ofNat x.offset) x.time).call
          (x.call source target first b) := by
  have hopens : ((b.field x.offset x.length).isEmpty && !x.syn) = false := by
    rcases hx with hsyn | hlen
    · simp [hsyn]
    · have : b.field x.offset x.length ≠ [] := fun he => by
        have := length_field hfit.1.1
        rw [he] at this
        exact absurd this (by simp; omega)
      simp [this]
  have hnew : (empty limits).streamFor? (x.segment source target first)
      (b.field x.offset x.length) x.time
        = some (.start (first + UInt32.ofNat x.offset) x.time) := by
    rw [streamFor?, x.start_segment]
    simp [empty, find?, Arrival.segment, hopens]
  have hlive : (opened limits (.between source target) (first + UInt32.ofNat x.offset)
      x.time).streamFor? (x.segment source target first) (b.field x.offset x.length) x.time
        = some (.start (first + UInt32.ofNat x.offset) x.time) := by
    simp [streamFor?, opened, find?, Arrival.segment, Segment.flow]
  have hkeep : ∀ s t, (empty limits).keep (x.segment source target first).flow s t
      = (opened limits (.between source target) (first + UInt32.ofNat x.offset) x.time).keep
          (x.segment source target first).flow s t := fun s t => by
    simp [keep, opened, put, empty, Arrival.segment, Segment.flow]
  simp only [Pool.call, Arrival.call, assemble, hnew, hlive, hkeep]
  rfl

/-- What carries neither a byte nor a SYN opens no stream. -/
theorem call_of_not_opens (hx : ¬ x.Opens) (source target : Endpoint) (first : UInt32) (b : Bytes) :
    (empty limits).call (x.call source target first b) = (empty limits, []) := by
  obtain ⟨hsyn, hlen⟩ := not_or.1 hx
  have hpayload : b.field x.offset x.length = [] := by
    simp [Bytes.field, Nat.eq_zero_of_not_pos hlen]
  have hnone : (empty limits).streamFor? (x.segment source target first)
      (b.field x.offset x.length) x.time = none := by
    simp [streamFor?, empty, find?, hpayload, Arrival.segment, hsyn]
  simp only [Arrival.call, Pool.call, assemble, hnone]

theorem after_of_not_opens (source target : Endpoint) (first : UInt32) (b : Bytes) :
    ∀ skipped : List Arrival, (∀ x ∈ skipped, ¬ x.Opens) →
      (empty limits).after (skipped.map (·.call source target first b)) = empty limits
  | [], _ => rfl
  | x :: skipped, h => by
    rw [List.map_cons, after, List.foldl_cons, call_of_not_opens (h x List.mem_cons_self)]
    exact after_of_not_opens source target first b skipped fun y hy =>
      h y (List.mem_cons_of_mem _ hy)

/-- As long as what arrived does not cover the byte string from where the stream begins, the next
arrival does what its part from there on does to a stream that has such parts of all others. -/
theorem exists_gathering (source target : Endpoint) (first : UInt32) (hne : b ≠ [])
    (hb : b.length < 0x80000000) {skipped arrived : List Arrival}
    (hskipped : ∀ x ∈ skipped, ¬ x.Opens) (hhead : arrived.head? = some opener)
    (hopener : opener.Opens) (hfit : ∀ x ∈ arrived, x.Fits b)
    (hs : pagesCarried (arrived.map (·.toCarried)) ≤ limits.perStream)
    (ht : pagesCarried (arrived.map (·.toCarried)) ≤ limits.total) (before : List Arrival) :
    ∀ x rest, arrived = before ++ x :: rest → ¬ CompleteFrom opener.offset b before →
      ∃ p, Gathering limits source target (first + UInt32.ofNat opener.offset)
          (b.drop opener.offset) (before.map (·.trim opener.offset)) p ∧
        ((empty limits).after ((skipped ++ before).map (·.call source target first b))).call
            (x.call source target first b)
          = p.call (x.trimmedCall source target first b opener.offset) := by
  have hless := Arrival.offset_lt hne (hfit opener (List.mem_of_head? hhead)) hopener
  induction before using List.reverseRecOn with
  | nil =>
    rintro x rest rfl _
    obtain rfl : x = opener := by simpa using hhead
    have hx := hfit x List.mem_cons_self
    have hg := gathering_opened limits source target (first + UInt32.ofNat x.offset)
      (b.drop x.offset) x.time
    refine ⟨_, hg, ?_⟩
    rw [List.append_nil, after_of_not_opens source target first b skipped hskipped,
      call_of_opens hopener hx, hg.call_trim hb (Nat.le_of_lt hless) hx]
  | append_singleton before y ih =>
    intro x rest harrived hc
    rw [List.append_assoc, List.singleton_append] at harrived
    obtain ⟨q, hq, hcall⟩ := ih y (x :: rest) harrived fun h => hc (h.append [y])
    have hpages := pagesCarried_trim_concat_le (a := opener.offset)
      (show before ++ [y] <+: arrived from ⟨x :: rest, by simp [harrived]⟩)
    have hstep := (hq.call (by simpa using hless) (by rw [List.length_drop]; omega)
      (hfit y (by simp [harrived])).1.trim (Nat.le_trans hpages hs) (Nat.le_trans hpages ht)).1
        (by rw [← complete_trim_iff] at hc; simpa using hc)
    refine ⟨_, by simpa using hstep.2, ?_⟩
    rw [← List.append_assoc, List.map_append, after_append]
    simp only [List.map_cons, List.map_nil, after, List.foldl_cons, List.foldl_nil] at hcall ⊢
    rw [hcall]
    exact hstep.2.call_trim hb (Nat.le_of_lt hless) (hfit x (by simp [harrived]))

/-- Segments of a byte string that come in any order, with or without the SYN anywhere among them,
are delivered from the first one on that carries a byte or the SYN: by the call after which they
cover the rest and their sender has closed, and by no call before. That is the whole byte string
exactly if that first one carries its beginning. -/
theorem assemble_from_first_seen (hne : b ≠ []) (hb : b.length < 0x80000000) (first : UInt32)
    (source target : Endpoint) (limits : Limits) (skipped : List Arrival) (opener : Arrival)
    (later : List Arrival) (hskipped : ∀ x ∈ skipped, ¬ x.Opens) (hopener : opener.Opens)
    (hfit : ∀ x ∈ opener :: later, x.Fits b)
    (hs : pagesCarried ((opener :: later).map (·.toCarried)) ≤ limits.perStream)
    (ht : pagesCarried ((opener :: later).map (·.toCarried)) ≤ limits.total) :
    (∀ x ∈ skipped, (empty limits).call (x.call source target first b) = (empty limits, [])) ∧
      ∀ before x rest, opener :: later = before ++ x :: rest →
        ¬ CompleteFrom opener.offset b before →
          let done := ((empty limits).after ((skipped ++ before).map
            (·.call source target first b))).call (x.call source target first b)
          (¬ CompleteFrom opener.offset b (before ++ [x]) → done.2 = []) ∧
            (CompleteFrom opener.offset b (before ++ [x]) →
              done.2 = [⟨.between source target, b.drop opener.offset, .fin⟩] ∧
                (done.2 = [⟨.between source target, b, .fin⟩] ↔ opener.offset = 0) ∧
                done.1.find? (.between source target) = none ∧ done.1.pages = 0) := by
  refine ⟨fun x hx => call_of_not_opens (hskipped x hx) source target first b, ?_⟩
  intro before x rest harrived hc done
  have hless := Arrival.offset_lt hne (hfit opener List.mem_cons_self) hopener
  obtain ⟨p, hp, hcall⟩ := exists_gathering source target first hne hb hskipped rfl hopener hfit hs
    ht before x rest harrived hc
  have hdone : done = p.call (x.trimmedCall source target first b opener.offset) := hcall
  have harrived' : before ++ [x] <+: opener :: later := ⟨rest, by simp [harrived]⟩
  have hpages := pagesCarried_trim_concat_le (a := opener.offset) harrived'
  have hcomplete : Complete (b.drop opener.offset) ((before ++ [x]).map (·.trim opener.offset)) ↔
      CompleteFrom opener.offset b (before ++ [x]) := complete_trim_iff
  rw [List.map_append] at hcomplete
  obtain ⟨hopen, hover⟩ := hp.call (by simpa using hless) (by rw [List.length_drop]; omega)
    (hfit x (harrived'.subset (by simp))).1.trim (Nat.le_trans hpages hs) (Nat.le_trans hpages ht)
  refine ⟨fun h => hdone ▸ (hopen fun h' => h (hcomplete.1 h')).1, fun h => ?_⟩
  obtain ⟨hdata, hnone, hzero⟩ := hover (hcomplete.2 h)
  rw [hdone, Arrival.trimmedCall, hdata, ← drop_eq_self_iff hless, Pool.find?, hnone]
  exact ⟨rfl, by simp, rfl, hzero⟩

/-- A slice from the middle comes first; the SYN and the beginning come behind it. -/
theorem assemble_from_middle :
    let b : Bytes := [97, 98, 99, 100]
    let source := Endpoint.v4 ⟨1⟩ 1
    let target := Endpoint.v4 ⟨2⟩ 2
    let p := (empty ⟨4, 4⟩).after ([⟨⟨4, 0, true, 4⟩, false⟩, ⟨⟨2, 1, false, 5⟩, false⟩,
      ⟨⟨0, 0, false, 6⟩, true⟩, ⟨⟨0, 2, false, 7⟩, false⟩].map
        (Arrival.call source target 0xfffffffe b))
    (p.call (Arrival.call source target 0xfffffffe b ⟨⟨1, 3, true, 8⟩, false⟩)).2
      = [⟨.between source target, [99, 100], .fin⟩] :=
  (((assemble_from_first_seen (b := [97, 98, 99, 100]) (by decide) (by decide) 0xfffffffe
    (.v4 ⟨1⟩ 1) (.v4 ⟨2⟩ 2) ⟨4, 4⟩ [⟨⟨4, 0, true, 4⟩, false⟩] ⟨⟨2, 1, false, 5⟩, false⟩
    [⟨⟨0, 0, false, 6⟩, true⟩, ⟨⟨0, 2, false, 7⟩, false⟩, ⟨⟨1, 3, true, 8⟩, false⟩]
    (by simp [Arrival.Opens]) (by simp [Arrival.Opens]) (by simp [Arrival.Fits, Carried.Fits])
    (by decide) (by decide)).2
    [⟨⟨2, 1, false, 5⟩, false⟩, ⟨⟨0, 0, false, 6⟩, true⟩, ⟨⟨0, 2, false, 7⟩, false⟩]
    ⟨⟨1, 3, true, 8⟩, false⟩ [] rfl (by unfold CompleteFrom; decide)).2
    (by unfold CompleteFrom; decide)).1

/-- The SYN comes second and the beginning behind it, everything has come when the sender closes,
and the beginning has been dropped. -/
theorem beginning_dropped_after_syn :
    let b : Bytes := [104, 101, 108, 108, 111, 119, 111, 114, 108, 100]
    let source := Endpoint.v4 ⟨1⟩ 1
    let target := Endpoint.v4 ⟨2⟩ 2
    let arrived : List Arrival := [⟨⟨5, 4, false, 0⟩, false⟩, ⟨⟨0, 0, false, 1⟩, true⟩,
      ⟨⟨0, 5, false, 2⟩, false⟩]
    let closing : Arrival := ⟨⟨9, 1, true, 3⟩, false⟩
    let done := ((empty ⟨500, 100000⟩).after (arrived.map (·.call source target 2000 b))).call
      (closing.call source target 2000 b)
    (∀ x ∈ arrived ++ [closing], x.Fits b) ∧ CompleteFrom 0 b (arrived ++ [closing]) ∧
      done.2 = [⟨.between source target, [119, 111, 114, 108, 100], .fin⟩] ∧
      done.1.flushAll.2 = [] := by
  unfold Arrival.Fits Carried.Fits CompleteFrom
  decide +kernel

end Pool

end Trawl.Reassembly
