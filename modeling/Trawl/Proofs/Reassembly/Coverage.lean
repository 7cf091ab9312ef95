import Trawl.Proofs.Reassembly.Waiting

/-!
# Streams of known bytes

When every segment that a stream takes in is a slice of one byte string, at the position where it
lies there, the stream has released a beginning of that byte string and what waits are slices beyond
it (`Stream.From`). Taking in a slice adds its places to those that the stream has, and no others
(`insert_slice`).
-/

namespace Trawl.Reassembly

/-! ### Positions as numbers -/

theorem toNat_sub_of_le {a b : UInt32} (h : b.toNat ≤ a.toNat) :
    (a - b).toNat = a.toNat - b.toNat := by
  rw [UInt32.toNat_sub]
  have := a.toNat_lt
  have := b.toNat_lt
  omega

theorem toNat_add_ofNat {a : UInt32} {n : Nat} (h : a.toNat + n < 0x100000000) :
    (a + UInt32.ofNat n).toNat = a.toNat + n := by
  rw [UInt32.toNat_add, UInt32.toNat_ofNat']
  omega

/-- In the first half of the sequence space, a position lies ahead of the lower ones. -/
theorem isAhead_iff {a b : UInt32} (ha : a.toNat < 0x80000000) (hb : b.toNat < 0x80000000) :
    isAhead a b = true ↔ b.toNat < a.toNat := by
  simp only [isAhead, Bool.and_eq_true, decide_eq_true_eq, UInt32.lt_iff_toNat_lt,
    UInt32.toNat_sub, UInt32.toNat_ofNat]
  omega

/-! ### Slices -/

/-- Whether a segment is the slice of a byte string that lies at its position. -/
def IsSlice (b : Bytes) (e : UInt32 × Bytes) : Prop :=
  e.1.toNat + e.2.length ≤ b.length ∧ e.2 = b.field e.1.toNat e.2.length

/-- Whether a place lies in a segment. -/
def Covers (e : UInt32 × Bytes) (i : Nat) : Prop :=
  e.1.toNat ≤ i ∧ i < e.1.toNat + e.2.length

/-- A beginning goes on with the part of a slice that it does not have yet. -/
theorem take_append_drop_field {b : Bytes} {k p n : Nat} (hp : p ≤ k) (hk : k ≤ p + n) :
    b.take k ++ (b.field p n).drop (k - p) = b.take (p + n) := by
  have hf : (b.field p n).drop (k - p) = (b.drop k).take (p + n - k) := by
    rw [Bytes.field, List.drop_take, List.drop_drop]
    congr 1
    · omega
    · congr 1
      omega
  rw [hf, ← List.take_add]
  congr 1
  omega

namespace Stream

/-- The stream has released a beginning of a byte string, and slices of it beyond that wait. -/
structure From (b : Bytes) (s : Stream) : Prop where
  next_le : s.next.toNat ≤ b.length
  data_eq : s.data = b.take s.next.toNat
  waiting : ∀ e ∈ s.waiting, s.next.toNat < e.1.toNat ∧ IsSlice b e

/-- Whether a stream has the byte at a place. -/
def Has (s : Stream) (i : Nat) : Prop :=
  i < s.next.toNat ∨ ∃ e ∈ s.waiting, Covers e i

section Fields

variable (s : Stream) (position : UInt32) (segment : Bytes)

@[simp] theorem origin_append : (s.append position segment).origin = s.origin := by
  unfold append
  dsimp only
  split <;> rfl

@[simp] theorem finAt_append : (s.append position segment).finAt = s.finAt := by
  unfold append
  dsimp only
  split <;> rfl

theorem fields_releaseFrom : ∀ (held : List (UInt32 × Bytes)) (s : Stream),
    (s.releaseFrom held).origin = s.origin ∧ (s.releaseFrom held).finAt = s.finAt
  | [], _ => ⟨rfl, rfl⟩
  | (position, segment) :: later, s => by
    simp only [releaseFrom]
    split
    · exact ⟨rfl, rfl⟩
    · simpa using fields_releaseFrom later (append _ position segment)

theorem fields_hold :
    (s.hold position segment).origin = s.origin ∧ (s.hold position segment).finAt = s.finAt ∧
      (s.hold position segment).next = s.next ∧
      (s.hold position segment).slices = s.slices := by
  simp only [hold]
  split
  · split <;> exact ⟨rfl, rfl, rfl, rfl⟩
  · exact ⟨rfl, rfl, rfl, rfl⟩

end Fields

variable {b : Bytes} {s : Stream} {position : UInt32} {segment : Bytes}

theorem append_slice (hb : b.length < 0x80000000) (hn : s.next.toNat ≤ b.length)
    (hd : s.data = b.take s.next.toNat) (hs : IsSlice b (position, segment))
    (hp : position.toNat ≤ s.next.toNat) :
    (s.append position segment).next.toNat = max s.next.toNat (position.toNat + segment.length) ∧
      (s.append position segment).data = b.take (s.append position segment).next.toNat := by
  obtain ⟨hle, heq⟩ := hs
  simp only at hle heq
  have hpassed : (s.next - position).toNat = s.next.toNat - position.toNat := toNat_sub_of_le hp
  simp only [append, hpassed]
  split
  · rename_i hlt
    have hnext : (s.next + UInt32.ofNat (segment.drop (s.next.toNat - position.toNat)).length).toNat
        = position.toNat + segment.length := by
      rw [List.length_drop, toNat_add_ofNat (by omega)]
      omega
    refine ⟨by simp only [hnext]; omega, ?_⟩
    simp only [hnext, data, List.reverse_cons, List.flatten_append, List.flatten_singleton]
    rw [show s.slices.reverse.flatten = b.take s.next.toNat from hd, heq]
    rw [take_append_drop_field hp (by omega), ← heq]
  · exact ⟨by omega, hd⟩

theorem releaseFrom_slices (hb : b.length < 0x80000000) : ∀ {held : List (UInt32 × Bytes)}
    {s : Stream}, InOrder held → (∀ e ∈ held, IsSlice b e) → s.next.toNat ≤ b.length →
      s.data = b.take s.next.toNat →
        (s.releaseFrom held).From b ∧
          ∀ i, (s.releaseFrom held).Has i ↔ i < s.next.toNat ∨ ∃ e ∈ held, Covers e i
  | [], s, _, _, hn, hd => ⟨⟨hn, hd, by simp [releaseFrom]⟩, by simp [releaseFrom, Has]⟩
  | (position, segment) :: later, s, ho, hs, hn, hd => by
    obtain ⟨hlt, hl⟩ := List.pairwise_cons.1 ho
    have hse := hs _ List.mem_cons_self
    have hpos : position.toNat < 0x80000000 := by
      have := hse.1
      simp only at this
      omega
    simp only [releaseFrom]
    split
    · rename_i hahead
      have hahead := (isAhead_iff hpos (by omega)).1 hahead
      refine ⟨⟨hn, hd, fun e he => ⟨?_, hs e he⟩⟩, fun i => Iff.rfl⟩
      rcases List.mem_cons.1 he with rfl | he
      · exact hahead
      · exact Nat.lt_trans hahead (UInt32.lt_iff_toNat_lt.1 (hlt e he))
    · rename_i hahead
      have hp : position.toNat ≤ s.next.toNat :=
        Nat.not_lt.1 fun h => hahead ((isAhead_iff hpos (by omega)).2 h)
      obtain ⟨t, ht⟩ : ∃ t : Stream,
          t = { s with waitingPages := s.waitingPages - pagesFor segment.length } := ⟨_, rfl⟩
      have htn : t.next = s.next := by rw [ht]
      have htd : t.data = s.data := by rw [ht]; rfl
      rw [← ht]
      obtain ⟨hnext, hdata⟩ := append_slice (s := t) hb (by rw [htn]; exact hn)
        (by rw [htd, htn]; exact hd) hse (by rw [htn]; exact hp)
      have hle := hse.1
      simp only at hle
      obtain ⟨hfrom, hhas⟩ := releaseFrom_slices hb hl
        (fun e he => hs e (List.mem_cons_of_mem _ he)) (by rw [hnext, htn]; omega) hdata
      refine ⟨hfrom, fun i => ?_⟩
      rw [hhas i, hnext, htn]
      simp only [List.mem_cons, exists_eq_or_imp, Covers]
      constructor
      · rintro (h | h)
        · by_cases hi : i < s.next.toNat
          · exact .inl hi
          · exact .inr (.inl (by omega))
        · exact .inr (.inr h)
      · rintro (h | h | h)
        · exact .inl (by omega)
        · exact .inl (by omega)
        · exact .inr h

theorem release_slices (hb : b.length < 0x80000000) (ho : InOrder s.waiting)
    (hs : ∀ e ∈ s.waiting, IsSlice b e) (hn : s.next.toNat ≤ b.length)
    (hd : s.data = b.take s.next.toNat) : s.release.From b ∧ ∀ i, s.release.Has i ↔ s.Has i :=
  releaseFrom_slices hb ho hs hn hd

theorem mem_place_iff : ∀ {held : List (UInt32 × Bytes)}, InOrder held →
    (∀ e ∈ held, e.1 = position → e.2.length < segment.length) → ∀ e : UInt32 × Bytes,
      e ∈ place position segment held ↔ e = (position, segment) ∨ e ∈ held ∧ e.1 ≠ position
  | [], _, _, e => by simp [place]
  | (p, x) :: later, ho, hlong, e => by
    obtain ⟨hp, hl⟩ := List.pairwise_cons.1 ho
    have hlater := mem_place_iff hl (fun e he => hlong e (List.mem_cons_of_mem _ he)) e
    simp only [place]
    by_cases hlt : position < p
    · rw [if_pos hlt]
      have hne : ∀ e ∈ (p, x) :: later, e.1 ≠ position := by
        rintro e he rfl
        rcases List.mem_cons.1 he with rfl | he
        · exact UInt32.lt_irrefl _ hlt
        · exact UInt32.lt_asymm hlt (hp e he)
      rw [List.mem_cons]
      exact or_congr_right ⟨fun he => ⟨he, hne e he⟩, And.left⟩
    rw [if_neg hlt]
    by_cases heq : position = p
    · subst heq
      have hne : ∀ e ∈ later, e.1 ≠ position := by
        rintro e he rfl
        exact UInt32.lt_irrefl _ (hp e he)
      rw [if_pos rfl, if_neg (Nat.not_le.2 (hlong _ List.mem_cons_self rfl)), List.mem_cons,
        List.mem_cons]
      constructor
      · rintro (h | h)
        · exact .inl h
        · exact .inr ⟨.inr h, hne e h⟩
      · rintro (h | ⟨rfl | h, hne'⟩)
        · exact .inl h
        · exact absurd rfl hne'
        · exact .inr h
    · rw [if_neg heq, List.mem_cons, List.mem_cons, hlater]
      constructor
      · rintro (rfl | h | ⟨h, hne⟩)
        · exact .inr ⟨.inl rfl, Ne.symm heq⟩
        · exact .inl h
        · exact .inr ⟨.inr h, hne⟩
      · rintro (h | ⟨h | h, hne⟩)
        · exact .inr (.inl h)
        · exact .inl h
        · exact .inr (.inr ⟨h, hne⟩)

theorem waitingAt?_of_mem (h : InOrder s.waiting) {e : UInt32 × Bytes} (he : e ∈ s.waiting) :
    s.waitingAt? e.1 = some e.2 := by
  unfold waitingAt?
  generalize s.waiting = held at h he
  induction held with
  | nil => simp at he
  | cons a later ih =>
    obtain ⟨ha, hl⟩ := List.pairwise_cons.1 h
    rcases List.mem_cons.1 he with rfl | he
    · simp
    · have hne : a.1 ≠ e.1 := fun hae => by
        have := ha e he
        rw [hae] at this
        exact UInt32.lt_irrefl _ this
      rw [List.find?_cons_of_neg (by simpa using hne)]
      exact ih hl he

/-- A slice that is longer than what waits at its position takes that place. -/
theorem From.place (h : s.From b) (ho : InOrder s.waiting) (hse : IsSlice b (position, segment))
    (hp : s.next.toNat < position.toNat)
    (hlong : ∀ e ∈ s.waiting, e.1 = position → e.2.length < segment.length) {t : Stream}
    (hn : t.next = s.next) (hd : t.slices = s.slices)
    (hw : t.waiting = Stream.place position segment s.waiting) :
    t.From b ∧ ∀ i, t.Has i ↔ s.Has i ∨ Covers (position, segment) i := by
  have hmem := mem_place_iff ho hlong
  refine ⟨⟨hn ▸ h.next_le, ?_, fun e he => ?_⟩, fun i => ?_⟩
  · rw [hn, ← h.data_eq, data, data, hd]
  · rw [hw, hmem e] at he
    rcases he with rfl | ⟨he, -⟩
    · exact ⟨hn ▸ hp, hse⟩
    · exact hn ▸ h.waiting e he
  · simp only [Has, hn, hw, hmem]
    constructor
    · rintro (hi | ⟨e, rfl | ⟨he, -⟩, hi⟩)
      · exact .inl (.inl hi)
      · exact .inr hi
      · exact .inl (.inr ⟨e, he, hi⟩)
    · rintro ((hi | ⟨e, he, hi⟩) | hi)
      · exact .inl hi
      · by_cases hpos : e.1 = position
        · have := hlong e he hpos
          refine .inr ⟨(position, segment), .inl rfl, ?_⟩
          unfold Covers at hi ⊢
          rw [hpos] at hi
          simp only
          omega
        · exact .inr ⟨e, .inr ⟨he, hpos⟩, hi⟩
      · exact .inr ⟨_, .inl rfl, hi⟩

theorem From.hold (h : s.From b) (ho : InOrder s.waiting) (hse : IsSlice b (position, segment))
    (hp : s.next.toNat < position.toNat) :
    (s.hold position segment).From b ∧
      ∀ i, (s.hold position segment).Has i ↔ s.Has i ∨ Covers (position, segment) i := by
  simp only [Stream.hold]
  split
  · rename_i held hheld
    split
    · rename_i hshort
      refine ⟨h, fun i => ⟨.inl, ?_⟩⟩
      rintro (hi | hi)
      · exact hi
      · obtain ⟨e, he, rfl⟩ := Option.map_eq_some_iff.1 hheld
        have hpos : e.1 = position := by simpa using List.find?_some he
        refine .inr ⟨e, List.mem_of_find?_eq_some he, ?_⟩
        unfold Covers at hi ⊢
        rw [hpos]
        simp only at hi
        omega
    · rename_i hlong
      refine h.place ho hse hp (fun e he hpos => ?_) rfl rfl rfl
      have := waitingAt?_of_mem ho he
      rw [hpos, hheld, Option.some.injEq] at this
      rw [← this]
      omega
  · rename_i hfree
    refine h.place ho hse hp (fun e he hpos => ?_) rfl rfl rfl
    have := waitingAt?_of_mem ho he
    rw [hpos, hfree] at this
    simp at this

/-- Taking in a slice adds its places to those that the stream has. -/
theorem insert_slice (hb : b.length < 0x80000000) (h : s.From b) (ha : s.Accounted)
    {sequence : UInt32} {payload : Bytes} (hse : IsSlice b (sequence - s.origin, payload))
    (fin : Bool) (now : Nat) :
    (s.insert sequence payload fin now).From b ∧
      (∀ i, (s.insert sequence payload fin now).Has i ↔
        s.Has i ∨ Covers (sequence - s.origin, payload) i) ∧
      (s.insert sequence payload fin now).origin = s.origin ∧
      (s.insert sequence payload fin now).finAt =
        if fin then some (sequence - s.origin + UInt32.ofNat payload.length) else s.finAt := by
  obtain ⟨t, ht, hi⟩ := s.insert_eq sequence payload fin now
  have hfrom : t.From b := by
    subst ht
    exact ⟨h.next_le, h.data_eq, h.waiting⟩
  have hhas : ∀ i, t.Has i ↔ s.Has i := by
    subst ht
    exact fun i => Iff.rfl
  have horigin : t.origin = s.origin := by rw [ht]
  have hfin : t.finAt = if fin then some (sequence - s.origin + UInt32.ofNat payload.length)
      else s.finAt := by rw [ht]
  have hinOrder : InOrder t.waiting := by
    subst ht
    exact ha.inOrder
  rw [hi, ← hfin, ← horigin]
  simp only [← hhas]
  rw [← horigin] at hse
  have hpos : (sequence - t.origin).toNat ≤ b.length := by
    have := hse.1
    simp only at this
    omega
  split
  · rename_i hempty
    refine ⟨hfrom, fun i => ⟨.inl, ?_⟩, rfl, rfl⟩
    rintro (h' | h')
    · exact h'
    · simp only [Covers, List.isEmpty_iff.1 hempty, List.length_nil] at h'
      omega
  split
  · rename_i hahead
    have hp := (isAhead_iff (by omega) (by have := hfrom.next_le; omega)).1 hahead
    obtain ⟨h₁, h₂⟩ := hfrom.hold hinOrder hse hp
    obtain ⟨h₃, h₄, -⟩ := t.fields_hold (sequence - t.origin) payload
    exact ⟨h₁, h₂, h₃, h₄⟩
  · rename_i hahead
    have hp : (sequence - t.origin).toNat ≤ t.next.toNat := Nat.not_lt.1 fun hlt =>
      hahead ((isAhead_iff (by omega) (by have := hfrom.next_le; omega)).2 hlt)
    obtain ⟨hnext, hdata⟩ := append_slice hb hfrom.next_le hfrom.data_eq hse hp
    have hle := hse.1
    simp only at hle
    obtain ⟨h₁, h₂⟩ := release_slices hb (s := t.append (sequence - t.origin) payload)
      (by rw [waiting_append]; exact hinOrder)
      (by rw [waiting_append]; exact fun e he => (hfrom.waiting e he).2)
      (by rw [hnext]; have := hfrom.next_le; omega) hdata
    obtain ⟨h₃, h₄⟩ := fields_releaseFrom (t.append (sequence - t.origin) payload).waiting
      (t.append (sequence - t.origin) payload)
    refine ⟨h₁, fun i => ?_, h₃.trans (origin_append ..), h₄.trans (finAt_append ..)⟩
    rw [h₂ i]
    simp only [Has, Covers, hnext, waiting_append]
    constructor
    · rintro (h' | h')
      · by_cases hn : i < t.next.toNat
        · exact .inl (.inl hn)
        · exact .inr (by omega)
      · exact .inl (.inr h')
    · rintro ((h' | h') | h')
      · exact .inl (by omega)
      · exact .inr h'
      · exact .inl (by omega)

end Stream

end Trawl.Reassembly
