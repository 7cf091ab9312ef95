import Mathlib.Data.List.Forall2
import Mathlib.Data.List.Perm.Subperm
import Trawl.Proofs.Reassembly.Coverage

/-!
# Waiting segments and the end of the sequence space

What waits in a stream lies in order of position, while ahead and behind are said round the sequence
space. The two orders agree where no segment waits beyond the end of the sequence space while
another one waits before it (`Stream.OnOneSide`). Then giving up a gap goes on at the nearest
segment, ending the stream releases every byte that waits, and nothing waits at or before the next
byte. In a state that does not satisfy that, the gap before a farther segment is given up, and the
bytes of the nearer one are lost (`Stream.skipsToNearest_iff`, `Stream.finishesInOrder_iff`).
-/

namespace Trawl.Reassembly

/-- How far a position lies after another one, round the sequence space. -/
def distance (base position : UInt32) : Nat :=
  (position - base).toNat

/-- A quarter of the sequence space: how far from the next byte segments may lie. -/
def reach : Nat := 0x40000000

/-- Whether a segment ends within reach of a position that it does not lie before. -/
def Within (base : UInt32) (e : UInt32 × Bytes) : Prop :=
  distance base e.1 + e.2.length ≤ reach

/-- Whether a segment has a byte at a distance from a position. -/
def Carries (base : UInt32) (e : UInt32 × Bytes) (d : Nat) (x : UInt8) : Prop :=
  distance base e.1 ≤ d ∧ e.2[d - distance base e.1]? = some x

/-- Segments in order of their distance from a position. -/
def Receding (base : UInt32) (held : List (UInt32 × Bytes)) : Prop :=
  held.Pairwise fun a b => distance base a.1 < distance base b.1

theorem distance_self (base : UInt32) : distance base base = 0 := by
  simp [distance]

/-- Within reach of a common base, ahead means farther. -/
theorem isAhead_iff_distance (base : UInt32) {a b : UInt32} (ha : distance base a ≤ reach)
    (hb : distance base b ≤ reach) : isAhead a b = true ↔ distance base b < distance base a := by
  have := base.toNat_lt
  have := a.toNat_lt
  have := b.toNat_lt
  simp only [isAhead, distance, reach, Bool.and_eq_true, decide_eq_true_eq, UInt32.lt_iff_toNat_lt,
    UInt32.toNat_sub, UInt32.toNat_ofNat] at ha hb ⊢
  omega

theorem distance_of_le {base a b : UInt32} (h : distance base a ≤ distance base b) :
    distance a b = distance base b - distance base a := by
  have := base.toNat_lt
  have := a.toNat_lt
  have := b.toNat_lt
  simp only [distance, UInt32.toNat_sub] at h ⊢
  omega

theorem distance_add {base a : UInt32} {n : Nat} (h : distance base a + n < 0x100000000) :
    distance base (a + UInt32.ofNat n) = distance base a + n := by
  have := base.toNat_lt
  have := a.toNat_lt
  simp only [distance, UInt32.toNat_sub, UInt32.toNat_add, UInt32.toNat_ofNat'] at h ⊢
  omega

theorem Carries.lt {base : UInt32} {e : UInt32 × Bytes} {d : Nat} {x : UInt8}
    (h : Carries base e d x) : d < distance base e.1 + e.2.length := by
  obtain ⟨hle, hx⟩ := h
  obtain ⟨hlt, -⟩ := List.getElem?_eq_some_iff.1 hx
  omega

/-- Every place of a carried byte lies in a segment. -/
theorem covered_of_carried {base : UInt32} {held : List (UInt32 × Bytes)} {places : List Nat}
    {bytes : Bytes}
    (h : List.Forall₂ (fun d x => ∃ e ∈ held, Carries base e d x) places bytes) :
    ∀ d ∈ places, ∃ e ∈ held, distance base e.1 ≤ d ∧ d < distance base e.1 + e.2.length := by
  intro d hd
  obtain ⟨i, hi, rfl⟩ := List.mem_iff_getElem.1 hd
  obtain ⟨e, he, hx⟩ := h.get hi (by rw [← h.length_eq]; exact hi)
  exact ⟨e, he, hx.1, hx.lt⟩

namespace Stream

variable {base : UInt32} {held : List (UInt32 × Bytes)} {s t u : Stream}

/-! ### What is released -/

/-- From one state to another, a stream has released the bytes between their next ones, each as one
of some segments has it. -/
def Releases (base : UInt32) (held : List (UInt32 × Bytes)) (s t : Stream) : Prop :=
  ∃ bytes, t.data = s.data ++ bytes ∧
    distance base t.next = distance base s.next + bytes.length ∧
    ∀ i x, bytes[i]? = some x → ∃ e ∈ held, Carries base e (distance base s.next + i) x

theorem Releases.refl (base : UInt32) (held : List (UInt32 × Bytes)) (s : Stream) :
    Releases base held s s :=
  ⟨[], by simp, by simp, by simp⟩

theorem Releases.le (h : Releases base held s t) : distance base s.next ≤ distance base t.next := by
  obtain ⟨bytes, -, hn, -⟩ := h
  omega

theorem Releases.trans {more : List (UInt32 × Bytes)} (h : Releases base held s t)
    (h' : Releases base more t u) (hm : ∀ e ∈ more, e ∈ held) : Releases base held s u := by
  obtain ⟨xs, hd, hn, hx⟩ := h
  obtain ⟨ys, hd', hn', hy⟩ := h'
  refine ⟨xs ++ ys, by rw [hd', hd, List.append_assoc], by rw [hn', hn, List.length_append]; omega,
    fun i x hi => ?_⟩
  by_cases hlt : i < xs.length
  · rw [List.getElem?_append_left hlt] at hi
    exact hx i x hi
  · rw [List.getElem?_append_right (Nat.not_lt.1 hlt)] at hi
    obtain ⟨e, he, hc⟩ := hy _ x hi
    rw [hn, show distance base s.next + xs.length + (i - xs.length) = distance base s.next + i by
      omega] at hc
    exact ⟨e, hm e he, hc⟩

/-- A segment that does not lie ahead is released from the next byte to its end. -/
theorem releases_append {e : UInt32 × Bytes} (he : Within base e)
    (hle : distance base e.1 ≤ distance base s.next) :
    Releases base [e] s (s.append e.1 e.2) ∧ distance base (s.append e.1 e.2).next
      = max (distance base s.next) (distance base e.1 + e.2.length) := by
  have hpassed : (s.next - e.1).toNat = distance base s.next - distance base e.1 :=
    distance_of_le hle
  unfold Within reach at he
  simp only [append, hpassed]
  split
  · rename_i hlt
    have hnext : distance base (s.next + UInt32.ofNat
        (e.2.drop (distance base s.next - distance base e.1)).length)
          = distance base e.1 + e.2.length := by
      rw [List.length_drop, distance_add (by omega)]
      omega
    refine ⟨⟨e.2.drop (distance base s.next - distance base e.1), ?_, ?_, fun i x hi => ?_⟩, ?_⟩
    · simp [data]
    · rw [hnext, List.length_drop]
      omega
    · refine ⟨e, List.mem_singleton_self e, by omega, ?_⟩
      rw [List.getElem?_drop] at hi
      rw [← hi]
      congr 1
      omega
    · rw [hnext]
      omega
  · exact ⟨.refl .., by omega⟩

/-- Releasing goes through a beginning of what waits and stops before a segment that lies ahead. -/
theorem releases_releaseFrom : ∀ {held : List (UInt32 × Bytes)} {s : Stream},
    (∀ e ∈ held, Within base e) → distance base s.next ≤ reach →
      Releases base held s (s.releaseFrom held) ∧
      distance base (s.releaseFrom held).next ≤ reach ∧
      (s.releaseFrom held).waiting <:+ held ∧
      (∀ e ∈ (s.releaseFrom held).waiting.head?,
        distance base (s.releaseFrom held).next < distance base e.1) ∧
      ∀ e ∈ held, e ∈ (s.releaseFrom held).waiting ∨
        distance base e.1 + e.2.length ≤ distance base (s.releaseFrom held).next
  | [], s, _, hs => ⟨⟨[], by simp [releaseFrom, data], by simp [releaseFrom], by simp⟩,
      by simpa [releaseFrom] using hs, by simp [releaseFrom], by simp [releaseFrom], by simp⟩
  | (position, x) :: later, s, hw, hs => by
    have hwe := hw _ List.mem_cons_self
    have hreach : distance base position ≤ reach := Nat.le_of_add_right_le hwe
    simp only [releaseFrom]
    split
    · rename_i hahead
      refine ⟨.refl .., hs, List.suffix_refl _, fun e he => ?_, fun e he => .inl he⟩
      obtain rfl : (position, x) = e := by simpa using he
      exact (isAhead_iff_distance base hreach hs).1 hahead
    · rename_i hahead
      have hle : distance base position ≤ distance base s.next :=
        Nat.not_lt.1 fun h => hahead ((isAhead_iff_distance base hreach hs).2 h)
      obtain ⟨t, ht⟩ : ∃ t : Stream,
          t = { s with waitingPages := s.waitingPages - pagesFor x.length } := ⟨_, rfl⟩
      have hn : t.next = s.next := by rw [ht]
      rw [← ht]
      obtain ⟨hr, hend⟩ := releases_append (s := t) hwe (by rw [hn]; exact hle)
      simp only at hr hend
      have hwithin : distance base position + x.length ≤ reach := hwe
      obtain ⟨hr', hreach', hsuf, hhead, hall⟩ := releases_releaseFrom (s := t.append position x)
        (fun e he => hw e (List.mem_cons_of_mem _ he)) (by rw [hend, hn]; omega)
      have hfirst : Releases base ((position, x) :: later) s (t.append position x) := by
        obtain ⟨bytes, hd, hk, hc⟩ := hr
        subst ht
        refine ⟨bytes, hd, hk, fun i y hi => ?_⟩
        obtain ⟨e, he, hy⟩ := hc i y hi
        exact ⟨e, by simpa using .inl (List.mem_singleton.1 he), hy⟩
      refine ⟨hfirst.trans hr' fun e he => List.mem_cons_of_mem _ he, hreach',
        hsuf.trans (List.suffix_cons ..), hhead, fun e he => ?_⟩
      rcases List.mem_cons.1 he with rfl | he
      · have := hr'.le
        exact .inr (by simp only; omega)
      · exact hall e he

/-- What is left waiting in order of distance lies ahead of the next byte. -/
theorem lt_of_receding {k : Nat} (hr : Receding base held)
    (hhead : ∀ e ∈ held.head?, k < distance base e.1) : ∀ e ∈ held, k < distance base e.1 := by
  cases held with
  | nil => simp
  | cons a later =>
    have ha := hhead a (by simp)
    intro e he
    rcases List.mem_cons.1 he with rfl | he
    · exact ha
    · exact Nat.lt_trans ha ((List.pairwise_cons.1 hr).1 e he)

/-! ### The state of a stream -/

/-- What waits lies ahead of the next byte, within reach of it. -/
def Close (s : Stream) : Prop :=
  ∀ e ∈ s.waiting, 0 < distance s.next e.1 ∧ Within s.next e

/-- Segments do not wait on both sides of the end of the sequence space. -/
def OnOneSide (s : Stream) : Prop :=
  ∀ a ∈ s.waiting, ∀ b ∈ s.waiting, s.next < a.1 → s.next < b.1

/-- Where anything waits, giving up a gap goes on at the segment nearest to the next byte. -/
def SkipsToNearest (s : Stream) : Prop :=
  s.waiting ≠ [] → ∃ e ∈ s.waiting,
    (∀ f ∈ s.waiting, distance s.next e.1 ≤ distance s.next f.1) ∧
      s.skipGap? = some { s with next := e.1 }.release

/-- Ending the stream releases the byte at every place that a waiting segment covers, in order of
distance from the next byte. -/
def FinishesInOrder (s : Stream) : Prop :=
  ∃ places bytes, s.finish = s.data ++ bytes ∧
    places.Pairwise (· < ·) ∧
    List.Forall₂ (fun d x => ∃ e ∈ s.waiting, Carries s.next e d x) places bytes ∧
    ∀ d, d ∈ places ↔ ∃ e ∈ s.waiting, distance s.next e.1 ≤ d ∧
      d < distance s.next e.1 + e.2.length

theorem receding_of_onOneSide (ho : InOrder s.waiting) (hc : s.Close) (h : s.OnOneSide) :
    Receding s.next s.waiting := by
  refine ho.imp_of_mem fun {a b} ha hb hlt => ?_
  have hab := h a ha b hb
  have hba := h b hb a ha
  have ha' := (hc a ha).1
  have hb' := (hc b hb).1
  have := s.next.toNat_lt
  have := a.1.toNat_lt
  have := b.1.toNat_lt
  simp only [distance, UInt32.lt_iff_toNat_lt, UInt32.toNat_sub] at *
  omega

/-- Where segments wait on both sides, the first of them is not the nearest one. -/
theorem nearer_of_not_onOneSide {f : UInt32 × Bytes} {later : List (UInt32 × Bytes)}
    (hw : s.waiting = f :: later) (ho : InOrder s.waiting) (hc : s.Close) (h : ¬ s.OnOneSide) :
    ∃ e ∈ s.waiting, distance s.next e.1 < distance s.next f.1 := by
  simp only [OnOneSide, not_forall] at h
  obtain ⟨a, ha, b, hb, hna, hnb⟩ := h
  have hle : f.1.toNat ≤ b.1.toNat := by
    rw [hw] at ho hb
    rcases List.mem_cons.1 hb with rfl | hb
    · exact Nat.le_refl _
    · exact Nat.le_of_lt (UInt32.lt_iff_toNat_lt.1 ((List.pairwise_cons.1 ho).1 b hb))
  refine ⟨a, ha, ?_⟩
  have hb' := (hc b hb).1
  have := s.next.toNat_lt
  have := a.1.toNat_lt
  have := b.1.toNat_lt
  simp only [distance, UInt32.lt_iff_toNat_lt, UInt32.toNat_sub] at *
  omega

/-! ### Giving up a gap and ending the stream -/

theorem skipGap?_cons {f : UInt32 × Bytes} {later : List (UInt32 × Bytes)}
    (hw : s.waiting = f :: later) : s.skipGap? = some { s with next := f.1 }.release := by
  obtain ⟨first, x⟩ := f
  unfold skipGap?
  split
  · rename_i hnil
    simp [hnil] at hw
  · rename_i hcons
    rw [hw] at hcons
    simp only [List.cons.injEq, Prod.mk.injEq] at hcons
    rw [hcons.1.1]

theorem skipGap?_nil (hw : s.waiting = []) : s.skipGap? = none := by
  unfold skipGap?
  split
  · rfl
  · rename_i hcons
    simp [hw] at hcons

/-- What ending a stream releases, and how far from a position each byte of it lies. All bytes that
wait are released if the segments lie in order of distance. -/
structure Ending (base : UInt32) (s : Stream) (places : List Nat) (bytes : Bytes) : Prop where
  finish_eq : s.finish = s.data ++ bytes
  increasing : places.Pairwise (· < ·)
  carried : List.Forall₂ (fun d x => ∃ e ∈ s.waiting, Carries base e d x) places bytes
  first_le : ∀ e ∈ s.waiting.head?, ∀ d ∈ places, distance base e.1 ≤ d
  complete : Receding base s.waiting → ∀ e ∈ s.waiting, ∀ d, distance base e.1 ≤ d →
    d < distance base e.1 + e.2.length → d ∈ places

theorem ending_nil (base : UInt32) (hw : s.waiting = []) : s.Ending base [] [] where
  finish_eq := by rw [finish_of_none (skipGap?_nil hw), List.append_nil]
  increasing := .nil
  carried := .nil
  first_le := by simp
  complete := by simp [hw]

theorem Ending.next_lt {places : List Nat} {bytes : Bytes} (h : s.Ending base places bytes)
    (hhead : ∀ e ∈ s.waiting.head?, distance base s.next < distance base e.1) :
    ∀ d ∈ places, distance base s.next < d := by
  intro d hd
  rcases hw : s.waiting with _ | ⟨g, later⟩
  · obtain ⟨e, he, -⟩ := covered_of_carried h.carried d hd
    simp [hw] at he
  · have hg : g ∈ s.waiting.head? := by simp [hw]
    exact Nat.lt_of_lt_of_le (hhead g hg) (h.first_le g hg d hd)

theorem exists_ending (base : UInt32) (s : Stream) (hw : ∀ e ∈ s.waiting, Within base e) :
    ∃ places bytes, s.Ending base places bytes := by
  rcases hcase : s.waiting with _ | ⟨f, later⟩
  · exact ⟨[], [], ending_nil base hcase⟩
  have hskip := skipGap?_cons hcase
  have hf : distance base f.1 ≤ reach := Nat.le_of_add_right_le (hw f (by simp [hcase]))
  obtain ⟨hr, -, hsuf, hlast, hall⟩ := releases_releaseFrom (s := { s with next := f.1 }) hw hf
  obtain ⟨t, ht⟩ : ∃ t, t = { s with next := f.1 }.release := ⟨_, rfl⟩
  rw [show releaseFrom { s with next := f.1 } s.waiting = t from ht.symm] at hr hsuf hlast hall
  rw [← ht] at hskip
  have hless := length_waiting_skipGap? hskip
  obtain ⟨places, bytes, hend⟩ := exists_ending base t fun e he => hw e (hsuf.mem he)
  have hbound := hend.next_lt hlast
  obtain ⟨first, hdata, hnext, hbytes⟩ := hr
  simp only at hnext hbytes
  refine ⟨List.range' (distance base f.1) first.length ++ places, first ++ bytes,
    ?_, ?_, ?_, ?_, ?_⟩
  · rw [finish_of_some hskip, hend.finish_eq, hdata, List.append_assoc]
    rfl
  · refine List.pairwise_append.2 ⟨List.pairwise_lt_range', hend.increasing, fun a ha b hb => ?_⟩
    have := hbound b hb
    rw [List.mem_range'_1] at ha
    omega
  · refine List.rel_append (List.forall₂_iff_get.2 ⟨by simp, fun i hi hi' => ?_⟩) ?_
    · simpa using hbytes i _ (List.getElem?_eq_getElem hi')
    · exact hend.carried.imp fun d x ⟨e, he, hx⟩ => ⟨e, hsuf.mem he, hx⟩
  · intro e he d hd
    obtain rfl : f = e := by simpa [hcase] using he
    rcases List.mem_append.1 hd with hd | hd
    · exact (List.mem_range'_1.1 hd).1
    · have := hbound d hd
      omega
  · intro hrec e he d hle hlt
    rcases hall e he with he' | hpast
    · exact List.mem_append_right _
        (hend.complete (hrec.sublist hsuf.sublist) e he' d hle hlt)
    · have hfe : distance base f.1 ≤ distance base e.1 := by
        rw [hcase] at hrec he
        rcases List.mem_cons.1 he with rfl | he
        · exact Nat.le_refl _
        · exact Nat.le_of_lt ((List.pairwise_cons.1 hrec).1 e he)
      exact List.mem_append_left _ (List.mem_range'_1.2 ⟨by omega, by omega⟩)
termination_by s.waiting.length

/-- Giving up a gap goes on at the nearest segment exactly where none waits on the other side. -/
theorem skipsToNearest_iff (ha : s.Accounted) (hc : s.Close) : s.SkipsToNearest ↔ s.OnOneSide := by
  rcases hw : s.waiting with _ | ⟨f, later⟩
  · simp [SkipsToNearest, OnOneSide, hw]
  have hskip := skipGap?_cons hw
  constructor
  · intro h
    by_contra hside
    obtain ⟨n, hn, hlt⟩ := nearer_of_not_onOneSide hw ha.inOrder hc hside
    obtain ⟨e, he, hnear, heq⟩ := h (by simp [hw])
    -- from the nearest segment on, the first one still lies ahead and nothing is released
    have hstay : ({ s with next := e.1 }.release).waiting = s.waiting := by
      have hahead : isAhead f.1 e.1 = true :=
        (isAhead_iff_distance s.next (Nat.le_of_add_right_le (hc f (by simp [hw])).2)
          (Nat.le_of_add_right_le (hc e he).2)).2 (Nat.lt_of_le_of_lt (hnear n hn) hlt)
      obtain ⟨first, x⟩ := f
      simp only [release, hw, releaseFrom, hahead, ↓reduceIte]
    have := length_waiting_skipGap? heq
    rw [hstay] at this
    exact Nat.lt_irrefl _ this
  · intro h _
    have hrec := receding_of_onOneSide ha.inOrder hc h
    refine ⟨f, by simp [hw], fun e he => ?_, hskip⟩
    rw [hw] at hrec he
    rcases List.mem_cons.1 he with rfl | he
    · exact Nat.le_refl _
    · exact Nat.le_of_lt ((List.pairwise_cons.1 hrec).1 e he)

/-- Ending the stream loses no waiting byte exactly where segments wait on one side. -/
theorem finishesInOrder_iff (ha : s.Accounted) (hc : s.Close) :
    s.FinishesInOrder ↔ s.OnOneSide := by
  obtain ⟨places, bytes, hend⟩ := exists_ending s.next s fun e he => (hc e he).2
  constructor
  · rintro ⟨places', bytes', hfin, hinc', hcar', hall'⟩
    by_contra hside
    rcases hw : s.waiting with _ | ⟨f, later⟩
    · exact hside (by simp [OnOneSide, hw])
    obtain ⟨n, hn, hlt⟩ := nearer_of_not_onOneSide hw ha.inOrder hc hside
    have hbytes : bytes = bytes' := List.append_cancel_left (hend.finish_eq.symm.trans hfin)
    -- as many places as are covered have been released, but not the nearest one
    have hmem : distance s.next n.1 ∈ places' := (hall' _).2 ⟨n, hn, Nat.le_refl _,
      Nat.lt_add_of_pos_right (List.length_pos_iff.2 (ha.nonempty n hn))⟩
    have hnot : distance s.next n.1 ∉ places := fun h => by
      have := hend.first_le f (by simp [hw]) _ h
      omega
    have hsubset : distance s.next n.1 :: places ⊆ places' := by
      intro d hd
      rcases List.mem_cons.1 hd with rfl | hd
      · exact hmem
      · exact (hall' d).2 (covered_of_carried hend.carried d hd)
    have hnodup : (distance s.next n.1 :: places).Nodup :=
      List.nodup_cons.2 ⟨hnot, hend.increasing.imp Nat.ne_of_lt⟩
    have := (List.subperm_of_subset hnodup hsubset).length_le
    have h₁ := hend.carried.length_eq
    have h₂ := hcar'.length_eq
    rw [List.length_cons, h₁, h₂, hbytes] at this
    omega
  · intro h
    have hrec := receding_of_onOneSide ha.inOrder hc h
    refine ⟨places, bytes, hend.finish_eq, hend.increasing, hend.carried,
      fun d => ⟨covered_of_carried hend.carried d, ?_⟩⟩
    rintro ⟨e, he, hle, hlt⟩
    exact hend.complete hrec e he d hle hlt

/-! ### Runs -/

/-- What a stream is made to do. -/
inductive Op where
  | insert (sequence : UInt32) (payload : Bytes) (fin : Bool) (now : Nat)
  | skipGap
  deriving DecidableEq, Repr

/-- The stream after it, the same one if there was no gap to give up. -/
def perform (s : Stream) : Op → Stream
  | .insert sequence payload fin now => s.insert sequence payload fin now
  | .skipGap => s.skipGap?.getD s

/-- Whether what is taken in starts and ends within reach of the next byte, before or after it. -/
def IsNear (s : Stream) : Op → Prop
  | .insert sequence payload _ _ =>
    distance s.next (sequence - s.origin) + payload.length ≤ reach ∨
      distance (sequence - s.origin) s.next ≤ reach ∧
        payload.length ≤ distance (sequence - s.origin) s.next + reach
  | .skipGap => True

/-- Whether everything that is taken in on a run is near when it comes. -/
def AllNear (s : Stream) : List Op → Prop
  | [] => True
  | op :: later => s.IsNear op ∧ (s.perform op).AllNear later

/-- Whether something holds before and after each step of a run. -/
def Throughout (P : Stream → Prop) (s : Stream) : List Op → Prop
  | [] => P s
  | op :: later => P s ∧ Throughout P (s.perform op) later

theorem mem_hold {position : UInt32} {segment : Bytes} {e : UInt32 × Bytes}
    (h : e ∈ (s.hold position segment).waiting) : e = (position, segment) ∨ e ∈ s.waiting := by
  simp only [hold] at h
  split at h
  · split at h
    · exact .inr h
    · exact mem_place h
  · exact mem_place h

/-- After releasing within reach of an old position, what still waits is close to the new one. -/
theorem close_release (base : UInt32) (hrec : Receding base s.waiting)
    (hw : ∀ e ∈ s.waiting, Within base e)
    (hs : distance base s.next ≤ reach) : s.release.Close := by
  obtain ⟨-, -, hsuf, hhead, -⟩ := releases_releaseFrom hw hs
  intro e he
  have hlt := lt_of_receding (hrec.sublist hsuf.sublist) hhead e he
  have hwe := hw e (hsuf.mem he)
  unfold release Within at *
  rw [distance_of_le (Nat.le_of_lt hlt)]
  omega

/-- A near segment that lies ahead ends within reach of the next byte. -/
theorem within_of_isNear {sequence : UInt32} {payload : Bytes} {fin : Bool} {now : Nat}
    (hnear : s.IsNear (.insert sequence payload fin now))
    (hahead : isAhead (sequence - s.origin) s.next = true) :
    0 < distance s.next (sequence - s.origin) ∧
      Within s.next (sequence - s.origin, payload) := by
  simp only [IsNear] at hnear
  generalize sequence - s.origin = position at hnear hahead ⊢
  have := s.next.toNat_lt
  have := position.toNat_lt
  simp only [isAhead, Within, distance, reach, Bool.and_eq_true, decide_eq_true_eq,
    UInt32.lt_iff_toNat_lt, UInt32.toNat_sub, UInt32.toNat_ofNat] at hahead hnear ⊢
  omega

/-- Releasing what is new in a near segment leaves the next byte within reach of where it was. -/
theorem distance_append_le {sequence : UInt32} {payload : Bytes} {fin : Bool} {now : Nat}
    (hnear : s.IsNear (.insert sequence payload fin now)) :
    distance s.next (s.append (sequence - s.origin) payload).next ≤ reach := by
  simp only [IsNear] at hnear
  generalize sequence - s.origin = position at hnear ⊢
  have hlen : payload.length ≤ (s.next - position).toNat + reach := by
    have := s.next.toNat_lt
    have := position.toNat_lt
    simp only [distance, reach, UInt32.toNat_sub] at hnear ⊢
    omega
  simp only [append]
  split
  · rw [List.length_drop, distance_add, distance_self]
    · omega
    · rw [distance_self]
      unfold reach at hlen
      omega
  · rw [distance_self]
    exact Nat.zero_le _

theorem Close.insert (hc : s.Close) (ha : s.Accounted) (hside : s.OnOneSide) {sequence : UInt32}
    {payload : Bytes} {fin : Bool} {now : Nat}
    (hnear : s.IsNear (.insert sequence payload fin now)) :
    (s.insert sequence payload fin now).Close := by
  obtain ⟨t, ht, hi⟩ := s.insert_eq sequence payload fin now
  have hw : t.waiting = s.waiting := by rw [ht]
  have hn : t.next = s.next := by rw [ht]
  have ho : t.origin = s.origin := by rw [ht]
  have hrec := receding_of_onOneSide ha.inOrder hc hside
  have hct : t.Close := by
    unfold Close
    rwa [hw, hn]
  have hneart : t.IsNear (.insert sequence payload fin now) := by
    simpa only [IsNear, hn, ho] using hnear
  rw [hi, ← ho]
  split
  · exact hct
  split
  · rename_i hahead
    intro e he
    rw [(t.fields_hold (sequence - t.origin) payload).2.2.1]
    rcases mem_hold he with rfl | he
    · exact within_of_isNear hneart hahead
    · exact hct e he
  · refine close_release t.next ?_ ?_ (distance_append_le hneart)
    · rwa [waiting_append, hw, hn]
    · rw [waiting_append]
      exact fun e he => (hct e he).2

theorem Close.skipGap? (hc : s.Close) (ha : s.Accounted) (hside : s.OnOneSide)
    (ht : s.skipGap? = some t) : t.Close := by
  rcases hw : s.waiting with _ | ⟨f, later⟩
  · simp [skipGap?_nil hw] at ht
  · rw [skipGap?_cons hw, Option.some.injEq] at ht
    subst ht
    exact close_release s.next (receding_of_onOneSide ha.inOrder hc hside)
      (fun e he => (hc e he).2) (Nat.le_of_add_right_le (hc f (by simp [hw])).2)

theorem Accounted.perform (ha : s.Accounted) (op : Op) : (s.perform op).Accounted := by
  cases op with
  | insert sequence payload fin now => exact ha.insert ..
  | skipGap =>
    rcases ht : s.skipGap? with _ | t
    · simpa [Stream.perform, ht] using ha
    · simpa [Stream.perform, ht] using ha.skipGap? ht

theorem Close.perform (hc : s.Close) (ha : s.Accounted) (hside : s.OnOneSide) {op : Op}
    (hnear : s.IsNear op) : (s.perform op).Close := by
  cases op with
  | insert sequence payload fin now => exact hc.insert ha hside hnear
  | skipGap =>
    rcases ht : s.skipGap? with _ | t
    · simpa [Stream.perform, ht] using hc
    · simpa [Stream.perform, ht] using hc.skipGap? ha hside ht

theorem close_start (origin : UInt32) (now : Nat) : (start origin now).Close := by
  simp [Close, start]

/-- Everything near lies on one side as long as the next byte is not in the last quarter of the
sequence space. -/
theorem Close.onOneSide (hc : s.Close) (h : s.next.toNat + reach ≤ 0x100000000) (ha : s.Accounted) :
    s.OnOneSide := by
  intro a _ b hb _
  have hb' := hc b hb
  have hlen := List.length_pos_iff.2 (ha.nonempty b hb)
  have := b.1.toNat_lt
  have := s.next.toNat_lt
  simp only [Within, distance, reach, UInt32.lt_iff_toNat_lt, UInt32.toNat_sub] at *
  omega

instance (s : Stream) : ∀ op, Decidable (s.IsNear op)
  | .insert .. => inferInstanceAs (Decidable (_ ∨ _))
  | .skipGap => inferInstanceAs (Decidable True)

instance decidableAllNear : ∀ (s : Stream) (ops : List Op), Decidable (s.AllNear ops)
  | _, [] => inferInstanceAs (Decidable True)
  | s, op :: later =>
    have := decidableAllNear (s.perform op) later
    inferInstanceAs (Decidable (_ ∧ _))

instance : DecidablePred Close := fun s =>
  inferInstanceAs (Decidable (∀ e ∈ s.waiting, 0 < _ ∧ distance s.next e.1 + e.2.length ≤ reach))

instance : DecidablePred OnOneSide := fun s =>
  inferInstanceAs (Decidable (∀ a ∈ s.waiting, ∀ b ∈ s.waiting, _ → _))

instance decidableThroughout (P : Stream → Prop) [DecidablePred P] :
    ∀ (s : Stream) (ops : List Op), Decidable (s.Throughout P ops)
  | s, [] => inferInstanceAs (Decidable (P s))
  | s, op :: later =>
    have := decidableThroughout P (s.perform op) later
    inferInstanceAs (Decidable (_ ∧ _))

theorem Throughout.imp {P Q : Stream → Prop} (hpq : ∀ s, P s → Q s) :
    ∀ {ops : List Op} {s : Stream}, s.Throughout P ops → s.Throughout Q ops
  | [], _, h => hpq _ h
  | _ :: _, _, h => ⟨hpq _ h.1, h.2.imp hpq⟩

/-- On a run of near segments, what waits stays close and on one side as long as something holds
that implies the latter. -/
theorem throughout_onOneSide {P : Stream → Prop}
    (hp : ∀ s : Stream, s.Accounted → s.Close → P s → s.OnOneSide) :
    ∀ {ops : List Op} {s : Stream}, s.Accounted → s.Close → s.AllNear ops → s.Throughout P ops →
      s.Throughout (fun s => s.Accounted ∧ s.Close ∧ s.OnOneSide) ops
  | [], s, ha, hc, _, h => ⟨ha, hc, hp s ha hc h⟩
  | op :: later, s, ha, hc, hnear, h => by
    have hside := hp s ha hc h.1
    exact ⟨⟨ha, hc, hside⟩, throughout_onOneSide hp (ha.perform op) (hc.perform ha hside hnear.1)
      hnear.2 h.2⟩

theorem throughout_iff {P : Stream → Prop}
    (hp : ∀ s : Stream, s.Accounted → s.Close → (P s ↔ s.OnOneSide)) {ops : List Op}
    {origin : UInt32} {now : Nat} (hnear : (start origin now).AllNear ops) :
    (start origin now).Throughout P ops ↔ (start origin now).Throughout OnOneSide ops := by
  have ha := accounted_start origin now
  have hc := close_start origin now
  constructor
  · intro h
    exact (throughout_onOneSide (fun s ha hc => (hp s ha hc).1) ha hc hnear h).imp
      fun _ h => h.2.2
  · intro h
    exact (throughout_onOneSide (fun _ _ _ h => h) ha hc hnear h).imp
      fun s ⟨ha, hc, hside⟩ => (hp s ha hc).2 hside

/-- On every run that takes in near segments only, gaps are given up at the nearest segment, and
ending the stream at any point loses nothing, exactly as long as segments never wait on both sides
of the end of the sequence space. Until then nothing waits at or before the next byte. A stream
whose next byte stays out of the last quarter of the sequence space is never in that state. -/
theorem inOrder_iff_onOneSide (origin : UInt32) (now : Nat) (ops : List Op)
    (hnear : (start origin now).AllNear ops) :
    ((start origin now).Throughout SkipsToNearest ops ↔
        (start origin now).Throughout OnOneSide ops) ∧
      ((start origin now).Throughout FinishesInOrder ops ↔
        (start origin now).Throughout OnOneSide ops) ∧
      ((start origin now).Throughout OnOneSide ops → (start origin now).Throughout Close ops) ∧
      ((start origin now).Throughout (fun s => s.next.toNat + reach ≤ 0x100000000) ops →
        (start origin now).Throughout OnOneSide ops) := by
  have ha := accounted_start origin now
  have hc := close_start origin now
  refine ⟨throughout_iff (fun s => skipsToNearest_iff) hnear,
    throughout_iff (fun s => finishesInOrder_iff) hnear, fun h => ?_, fun h => ?_⟩
  · exact (throughout_onOneSide (fun _ _ _ h => h) ha hc hnear h).imp fun _ h => h.2.1
  · exact (throughout_onOneSide (fun s ha hc h => hc.onOneSide h ha) ha hc hnear h).imp
      fun _ h => h.2.2

/-- Gaps given up until 16 bytes are left before the end of the sequence space. -/
def toTheEnd : List Op :=
  [.insert 0x3FFFFFFF [97] false 0, .skipGap, .insert 0x7FFFFFFF [98] false 0, .skipGap,
    .insert 0xBFFFFFFF [99] false 0, .skipGap, .insert 0xFFFFFFEF [100] false 0, .skipGap]

theorem inOrder_past_the_end :
    (start 0 0).AllNear (toTheEnd ++
        [.insert 0xFFFFFFF8 [120] false 0, .skipGap, .insert 8 [121] false 0, .skipGap]) ∧
      (start 0 0).Throughout FinishesInOrder (toTheEnd ++
        [.insert 0xFFFFFFF8 [120] false 0, .skipGap, .insert 8 [121] false 0, .skipGap]) := by
  have hnear : (start 0 0).AllNear (toTheEnd ++
      [.insert 0xFFFFFFF8 [120] false 0, .skipGap, .insert 8 [121] false 0, .skipGap]) := by
    decide +kernel
  exact ⟨hnear, (inOrder_iff_onOneSide 0 0 _ hnear).2.1.2 (by decide +kernel)⟩

/-- With one segment before the end of the sequence space and one after it, the gap before the later
one is given up and the earlier one is lost, and after a segment that continues the stream the
earlier one still waits, although the next byte lies in it. -/
theorem nearest_passed_over :
    (start 0 0).AllNear (toTheEnd ++ [.insert 0xFFFFFFF8 [120, 120, 120, 120, 120, 120] false 0,
        .insert 8 [121] false 0, .insert 0xFFFFFFF0 (List.replicate 12 122) false 0]) ∧
      ¬ (start 0 0).Throughout SkipsToNearest (toTheEnd ++
        [.insert 0xFFFFFFF8 [120, 120, 120, 120, 120, 120] false 0, .insert 8 [121] false 0]) ∧
      ¬ (start 0 0).Throughout FinishesInOrder (toTheEnd ++
        [.insert 0xFFFFFFF8 [120, 120, 120, 120, 120, 120] false 0, .insert 8 [121] false 0]) ∧
      ¬ (start 0 0).Throughout Close (toTheEnd ++
        [.insert 0xFFFFFFF8 [120, 120, 120, 120, 120, 120] false 0, .insert 8 [121] false 0,
          .insert 0xFFFFFFF0 (List.replicate 12 122) false 0]) := by
  have hnear : (start 0 0).AllNear (toTheEnd ++
      [.insert 0xFFFFFFF8 [120, 120, 120, 120, 120, 120] false 0, .insert 8 [121] false 0]) := by
    decide +kernel
  have hside : ¬ (start 0 0).Throughout OnOneSide (toTheEnd ++
      [.insert 0xFFFFFFF8 [120, 120, 120, 120, 120, 120] false 0, .insert 8 [121] false 0]) := by
    decide +kernel
  exact ⟨by decide +kernel,
    fun h => hside ((throughout_iff (fun s => skipsToNearest_iff) hnear).1 h),
    fun h => hside ((throughout_iff (fun s => finishesInOrder_iff) hnear).1 h), by decide +kernel⟩

end Stream

end Trawl.Reassembly
