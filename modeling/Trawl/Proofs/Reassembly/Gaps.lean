import Trawl.Proofs.Reassembly.Order

/-!
# Streams with gaps and conflicts

Segments may overlap, contradict each other, lie before the start of the stream or leave gaps that
are given up. As long as they lie within reach of the start, what a stream delivers in the end has
one byte for every place that a segment brought before the stream had passed it, in order of the
places, and no other byte (`finish_delivers`). What the stream has released and what waits are kept
together for that (`Stream.Delivers`): releasing only moves places from the second to the first.
-/

namespace Trawl.Reassembly

/-- The place in the stream of a position, negative in the half of the sequence space before the
first byte. -/
def offset (position : UInt32) : Int :=
  if position.toNat < 0x80000000 then position.toNat else position.toNat - 0x100000000

theorem distance_zero (position : UInt32) : distance 0 position = position.toNat := by
  simp [distance]

/-- Within reach of the start, a position lies ahead of the next byte where its place is farther. -/
theorem isAhead_iff_offset {position next : UInt32} (hn : next.toNat ≤ reach)
    (hlow : -(reach : Int) < offset position) (hhigh : offset position ≤ reach) :
    isAhead position next = true ↔ (next.toNat : Int) < offset position := by
  have := position.toNat_lt
  unfold offset reach at *
  simp only [isAhead, Bool.and_eq_true, decide_eq_true_eq, UInt32.lt_iff_toNat_lt,
    UInt32.toNat_sub, UInt32.toNat_ofNat]
  split_ifs at * <;> omega

theorem toNat_of_offset_pos {position : UInt32} (h : 0 < offset position) :
    (position.toNat : Int) = offset position := by
  have := position.toNat_lt
  unfold offset at *
  split_ifs at * <;> omega

theorem toNat_sub_of_offset_le {position next : UInt32} (hn : next.toNat ≤ reach)
    (hlow : -(reach : Int) < offset position) (h : offset position ≤ next.toNat) :
    ((next - position).toNat : Int) = next.toNat - offset position := by
  have := position.toNat_lt
  unfold offset reach at *
  rw [UInt32.toNat_sub]
  split_ifs at * <;> omega

namespace Stream

variable {brought : Nat → UInt8 → Prop} {taken : Nat → Prop} {s t : Stream} {places : List Nat}

/-- A stream has released one byte for each of some places before the next byte, and with what waits
it has all places that were taken in. Where what waits reaches back before the next byte, that has
been released. -/
structure Delivers (brought : Nat → UInt8 → Prop) (taken : Nat → Prop) (s : Stream)
    (places : List Nat) : Prop where
  increasing : places.Pairwise (· < ·)
  passed : ∀ d ∈ places, d < s.next.toNat
  bytes : List.Forall₂ brought places s.data
  taken_iff : ∀ d, taken d ↔ d ∈ places ∨ ∃ e ∈ s.waiting, Covers e d
  overlap : ∀ e ∈ s.waiting, ∀ d, Covers e d → d < s.next.toNat → d ∈ places
  next_le : s.next.toNat ≤ reach
  inOrder : InOrder s.waiting
  within : ∀ e ∈ s.waiting, Within 0 e
  brings : ∀ e ∈ s.waiting, ∀ d x, Carries 0 e d x → brought d x

/-- Everything that waits lies ahead of the next byte. -/
def Ahead (s : Stream) : Prop :=
  ∀ e ∈ s.waiting, s.next.toNat < e.1.toNat

theorem covers_of_carries {e : UInt32 × Bytes} {d : Nat} {x : UInt8} (h : Carries 0 e d x) :
    Covers e d := by
  have hlt := h.lt
  have hle := h.1
  rw [distance_zero] at hlt hle
  exact ⟨hle, hlt⟩

theorem receding_of_inOrder {held : List (UInt32 × Bytes)} (h : InOrder held) :
    Receding 0 held :=
  h.imp fun {a b} hab => by
    rw [distance_zero, distance_zero]
    exact UInt32.lt_iff_toNat_lt.1 hab

theorem forall₂_range' {bytes : Bytes} {n : Nat}
    (h : ∀ i x, bytes[i]? = some x → brought (n + i) x) :
    List.Forall₂ brought (List.range' n bytes.length) bytes := by
  refine List.forall₂_iff_get.2 ⟨by simp, fun i hi hi' => ?_⟩
  simpa using h i _ (List.getElem?_eq_getElem hi')

theorem delivers_start (brought : Nat → UInt8 → Prop) (origin : UInt32) (now : Nat) :
    (start origin now).Delivers brought (fun _ => False) [] where
  increasing := .nil
  passed := by simp
  bytes := by simp [start, data]
  taken_iff := by simp [start]
  overlap := by simp [start]
  next_le := by simp [start]
  inOrder := .nil
  within := by simp [start]
  brings := by simp [start]

/-- What a stream releases from its next byte on joins the places before it. -/
theorem Delivers.extend (h : s.Delivers brought taken places) {taken' : Nat → Prop} {bytes : Bytes}
    (hdata : t.data = s.data ++ bytes) (hnext : t.next.toNat = s.next.toNat + bytes.length)
    (hbytes : ∀ i x, bytes[i]? = some x → brought (s.next.toNat + i) x)
    (hreach : t.next.toNat ≤ reach) (hw : t.waiting.Sublist s.waiting)
    (htaken : ∀ d, taken' d ↔ d ∈ places ∨ (s.next.toNat ≤ d ∧ d < t.next.toNat) ∨
      ∃ e ∈ t.waiting, Covers e d) :
    t.Delivers brought taken' (places ++ List.range' s.next.toNat bytes.length) := by
  have hmem : ∀ d, d ∈ List.range' s.next.toNat bytes.length ↔
      s.next.toNat ≤ d ∧ d < t.next.toNat := by
    intro d
    rw [List.mem_range'_1, hnext]
  refine ⟨?_, ?_, ?_, ?_, ?_, hreach, h.inOrder.sublist hw, fun e he => h.within e (hw.mem he),
    fun e he => h.brings e (hw.mem he)⟩
  · refine List.pairwise_append.2 ⟨h.increasing, List.pairwise_lt_range', fun a ha b hb => ?_⟩
    exact Nat.lt_of_lt_of_le (h.passed a ha) ((hmem b).1 hb).1
  · intro d hd
    rcases List.mem_append.1 hd with hd | hd
    · have := h.passed d hd
      omega
    · exact ((hmem d).1 hd).2
  · rw [hdata]
    exact List.rel_append h.bytes (forall₂_range' hbytes)
  · intro d
    rw [htaken, List.mem_append, hmem, or_assoc]
  · intro e he d hd hlt
    rw [List.mem_append, hmem]
    by_cases hpast : d < s.next.toNat
    · exact .inl (h.overlap e (hw.mem he) d hd hpast)
    · exact .inr ⟨Nat.not_lt.1 hpast, hlt⟩

/-- Releasing what does not lie ahead takes in and loses no place. -/
theorem Delivers.release (h : s.Delivers brought taken places) :
    s.release.Ahead ∧ ∃ places', s.release.Delivers brought taken places' := by
  have hreleases := releases_releaseFrom h.within (by rw [distance_zero]; exact h.next_le)
  simp only [Releases, distance_zero, ← release.eq_1] at hreleases
  obtain ⟨⟨bytes, hdata, hnext, hbytes⟩, hle, hsuf, hhead, hall⟩ := hreleases
  have horder := receding_of_inOrder (h.inOrder.sublist hsuf.sublist)
  have hahead : s.release.Ahead := by
    unfold Ahead
    simpa only [distance_zero] using
      lt_of_receding horder fun e he => by rw [distance_zero]; exact hhead e he
  refine ⟨hahead, _, h.extend hdata hnext (fun i x hi => ?_) hle hsuf.sublist fun d => ?_⟩
  · obtain ⟨e, he, hx⟩ := hbytes i x hi
    exact h.brings e he _ x hx
  rw [h.taken_iff]
  constructor
  · rintro (hd | ⟨e, he, hd⟩)
    · exact .inl hd
    · rcases hall e he with he' | hpast
      · exact .inr (.inr ⟨e, he', hd⟩)
      · -- What a segment has before the next byte had been released when it came to wait.
        by_cases hlt : d < s.next.toNat
        · exact .inl (h.overlap e he d hd hlt)
        · exact .inr (.inl ⟨Nat.not_lt.1 hlt, Nat.lt_of_lt_of_le hd.2 hpast⟩)
  · rintro (hd | ⟨hle, hlt⟩ | ⟨e, he, hd⟩)
    · exact .inl hd
    · obtain ⟨e, he, hx⟩ := hbytes (d - s.next.toNat) _
        (List.getElem?_eq_getElem (by omega))
      rw [Nat.add_sub_cancel' hle] at hx
      exact .inr ⟨e, he, covers_of_carries hx⟩
    · exact .inr ⟨e, hsuf.mem he, hd⟩

theorem Delivers.skipGap? (h : s.Delivers brought taken places) (ha : s.Ahead)
    (ht : s.skipGap? = some t) : t.Ahead ∧ ∃ places', t.Delivers brought taken places' := by
  rcases hw : s.waiting with _ | ⟨f, later⟩
  · simp [skipGap?_nil hw] at ht
  rw [skipGap?_cons hw, Option.some.injEq] at ht
  subst ht
  have hf : f ∈ s.waiting := by simp [hw]
  have hfirst : ∀ e ∈ s.waiting, f.1.toNat ≤ e.1.toNat := by
    have horder := h.inOrder
    rw [hw] at horder ⊢
    intro e he
    rcases List.mem_cons.1 he with rfl | he
    · exact Nat.le_refl _
    · exact Nat.le_of_lt (UInt32.lt_iff_toNat_lt.1 ((List.pairwise_cons.1 horder).1 e he))
  have hskip : ({ s with next := f.1 } : Stream).Delivers brought taken places := by
    refine { h with passed := fun d hd => ?_, overlap := fun e he d hd hlt => ?_, next_le := ?_ }
    · exact Nat.lt_trans (h.passed d hd) (ha f hf)
    · -- The first segment is the nearest one, so nothing that waits is passed.
      exact absurd (Nat.lt_of_lt_of_le hlt (hfirst e he)) (Nat.not_lt.2 hd.1)
    · have := h.within f hf
      rw [Within, distance_zero] at this
      exact Nat.le_of_add_right_le this
  exact hskip.release

/-! ### Taking in a segment -/

section Segment

variable {position : UInt32} {payload : Bytes}

/-- Whether a segment has a byte for a place that is not passed. -/
def Adds (s : Stream) (position : UInt32) (payload : Bytes) (d : Nat) : Prop :=
  s.next.toNat ≤ d ∧ ∃ i < payload.length, offset position + i = d

/-- A segment that does not lie ahead is its part from the next byte on. -/
theorem append_eq (s : Stream) (position : UInt32) (payload : Bytes) :
    s.append position payload = s.append s.next (payload.drop (s.next - position).toNat) := by
  have hself : (s.next - s.next).toNat = 0 := by simp
  simp only [append, hself, List.drop_zero, List.length_drop]
  split_ifs <;> first | rfl | omega

theorem Delivers.append (h : s.Delivers brought taken places)
    (hlow : -(reach : Int) < offset position)
    (hhigh : offset position + payload.length ≤ reach)
    (hle : offset position ≤ s.next.toNat)
    (hbrings : ∀ (i d : Nat) x, payload[i]? = some x → offset position + i = d → brought d x) :
    ∃ places', (s.append position payload).Delivers brought
      (fun d => taken d ∨ s.Adds position payload d) places' := by
  have hpassed := toNat_sub_of_offset_le h.next_le hlow hle
  rw [append_eq]
  generalize hk : (s.next - position).toNat = k at hpassed
  have hwithin : Within 0 (s.next, payload.drop k) := by
    have := h.next_le
    simp only [Within, distance_zero, List.length_drop]
    omega
  obtain ⟨hreleases, hend⟩ := releases_append hwithin (Nat.le_refl _)
  simp only [Releases, distance_zero, List.length_drop] at hreleases hend
  rw [Nat.max_eq_right (Nat.le_add_right ..)] at hend
  obtain ⟨bytes, hdata, hnext, hbytes⟩ := hreleases
  refine ⟨_, h.extend hdata hnext (fun i x hi => ?_) ?_ (by simp) fun d => ?_⟩
  · obtain ⟨e, he, -, hx⟩ := hbytes i x hi
    obtain rfl := List.mem_singleton.1 he
    simp only [distance_zero, Nat.add_sub_cancel_left, List.getElem?_drop] at hx
    exact hbrings _ _ x hx (by omega)
  · simp only [Within, distance_zero, List.length_drop] at hwithin
    have := h.next_le
    omega
  · rw [h.taken_iff, waiting_append]
    constructor
    · rintro ((hd | hd) | ⟨hd, i, hi, hid⟩)
      · exact .inl hd
      · exact .inr (.inr hd)
      · exact .inr (.inl ⟨hd, by omega⟩)
    · rintro (hd | ⟨hd, hlt⟩ | hd)
      · exact .inl (.inl hd)
      · exact .inr ⟨hd, k + (d - s.next.toNat), by omega, by omega⟩
      · exact .inl (.inr hd)

/-- A segment that lies ahead has not been passed anywhere. -/
theorem adds_iff_covers (hahead : (s.next.toNat : Int) < offset position) {d : Nat} :
    s.Adds position payload d ↔ Covers (position, payload) d := by
  have hpos := toNat_of_offset_pos (show 0 < offset position by omega)
  simp only [Adds, Covers]
  constructor
  · rintro ⟨-, i, hi, hid⟩
    omega
  · rintro ⟨hle, hlt⟩
    exact ⟨by omega, d - position.toNat, by omega, by omega⟩

/-- A segment that takes the place of a shorter one has all of its places. -/
theorem exists_covers_place {held : List (UInt32 × Bytes)} (horder : InOrder held)
    (hlong : ∀ e ∈ held, e.1 = position → e.2.length < payload.length) {d : Nat} :
    (∃ e ∈ Stream.place position payload held, Covers e d) ↔
      (∃ e ∈ held, Covers e d) ∨ Covers (position, payload) d := by
  have hmem := mem_place_iff horder hlong
  constructor
  · rintro ⟨e, he, hd⟩
    rcases (hmem e).1 he with rfl | ⟨he, -⟩
    · exact .inr hd
    · exact .inl ⟨e, he, hd⟩
  · rintro (⟨e, he, hd⟩ | hd)
    · by_cases hsame : e.1 = position
      · refine ⟨_, (hmem _).2 (.inl rfl), ?_⟩
        have := hlong e he hsame
        rw [Covers, hsame] at hd
        exact ⟨hd.1, Nat.lt_trans hd.2 (Nat.add_lt_add_left this _)⟩
      · exact ⟨e, (hmem e).2 (.inr ⟨he, hsame⟩), hd⟩
    · exact ⟨_, (hmem _).2 (.inl rfl), hd⟩

/-- A segment that lies ahead waits for its places, in the place of a shorter one. -/
theorem Delivers.place (h : s.Delivers brought taken places)
    (hahead : (s.next.toNat : Int) < offset position)
    (hhigh : offset position + payload.length ≤ reach)
    (hbrings : ∀ (i d : Nat) x, payload[i]? = some x → offset position + i = d → brought d x)
    (hlong : ∀ e ∈ s.waiting, e.1 = position → e.2.length < payload.length)
    (hn : t.next = s.next) (hd : t.slices = s.slices)
    (hw : t.waiting = Stream.place position payload s.waiting) :
    t.Delivers brought (fun d => taken d ∨ s.Adds position payload d) places := by
  have hpos := toNat_of_offset_pos (show 0 < offset position by omega)
  have hmem := mem_place_iff h.inOrder hlong
  refine ⟨h.increasing, hn ▸ h.passed, ?_, fun d => ?_, ?_, hn ▸ h.next_le, ?_, ?_, ?_⟩
  · rw [data, hd]
    exact h.bytes
  · rw [h.taken_iff, hw, exists_covers_place h.inOrder hlong, adds_iff_covers hahead, or_assoc]
  · intro e he d hc hlt
    rw [hw, hmem] at he
    rw [hn] at hlt
    rcases he with rfl | ⟨he, -⟩
    · have := hc.1
      simp only at this
      omega
    · exact h.overlap e he d hc hlt
  · rw [hw]
    exact inOrder_place h.inOrder
  · intro e he
    rw [hw, hmem] at he
    rcases he with rfl | ⟨he, -⟩
    · rw [Within, distance_zero]
      simp only
      omega
    · exact h.within e he
  · intro e he d x hx
    rw [hw, hmem] at he
    rcases he with rfl | ⟨he, -⟩
    · obtain ⟨hle, hx⟩ := hx
      rw [distance_zero] at hle hx
      exact hbrings _ d x hx (by simp only at hle ⊢; omega)
    · exact h.brings e he d x hx

theorem Delivers.hold (h : s.Delivers brought taken places) (ha : s.Ahead)
    (hahead : (s.next.toNat : Int) < offset position)
    (hhigh : offset position + payload.length ≤ reach)
    (hbrings : ∀ (i d : Nat) x, payload[i]? = some x → offset position + i = d → brought d x) :
    (s.hold position payload).Ahead ∧ (s.hold position payload).Delivers brought
      (fun d => taken d ∨ s.Adds position payload d) places := by
  have hpos := toNat_of_offset_pos (show 0 < offset position by omega)
  refine ⟨fun e he => ?_, ?_⟩
  · rw [(s.fields_hold position payload).2.2.1]
    rcases mem_hold he with rfl | he
    · simp only
      omega
    · exact ha e he
  simp only [Stream.hold]
  split
  · rename_i held hheld
    split
    · rename_i hshort
      obtain ⟨e, he, rfl⟩ := Option.map_eq_some_iff.1 hheld
      have hsame : e.1 = position := by simpa using List.find?_some he
      refine { h with taken_iff := fun d => ?_ }
      rw [← h.taken_iff, adds_iff_covers hahead]
      refine or_iff_left_of_imp fun hd => (h.taken_iff d).2 (.inr ⟨e, ?_, ?_⟩)
      · exact List.mem_of_find?_eq_some he
      · rw [Covers, hsame]
        exact ⟨hd.1, Nat.lt_of_lt_of_le hd.2 (Nat.add_le_add_left hshort _)⟩
    · rename_i hlong
      refine h.place hahead hhigh hbrings (fun e he hsame => ?_) rfl rfl rfl
      have := waitingAt?_of_mem h.inOrder he
      rw [hsame, hheld, Option.some.injEq] at this
      rw [← this]
      omega
  · rename_i hfree
    refine h.place hahead hhigh hbrings (fun e he hsame => ?_) rfl rfl rfl
    have := waitingAt?_of_mem h.inOrder he
    rw [hsame, hfree] at this
    simp at this

end Segment

/-- Taking in a segment takes in its places that are not passed. -/
theorem Delivers.insert (h : s.Delivers brought taken places) (ha : s.Ahead) {sequence : UInt32}
    {payload : Bytes} (hlow : -(reach : Int) < offset (sequence - s.origin))
    (hhigh : offset (sequence - s.origin) + payload.length ≤ reach)
    (hbrings : ∀ (i d : Nat) x, payload[i]? = some x → offset (sequence - s.origin) + i = d →
      brought d x) (fin : Bool) (now : Nat) :
    (s.insert sequence payload fin now).Ahead ∧
      ∃ places', (s.insert sequence payload fin now).Delivers brought
        (fun d => taken d ∨ s.Adds (sequence - s.origin) payload d) places' := by
  obtain ⟨t, ht, hi⟩ := s.insert_eq sequence payload fin now
  have hdelivers : t.Delivers brought taken places := by
    subst ht
    exact { h with }
  have hahead : t.Ahead := by
    subst ht
    exact ha
  have hadds : s.Adds (sequence - s.origin) payload = t.Adds (sequence - s.origin) payload := by
    subst ht
    rfl
  rw [hi, hadds]
  split
  · rename_i hempty
    refine ⟨hahead, places, { hdelivers with taken_iff := fun d => ?_ }⟩
    rw [← hdelivers.taken_iff]
    refine ⟨?_, .inl⟩
    rintro (hd | ⟨-, i, hi, -⟩)
    · exact hd
    · simp [List.isEmpty_iff.1 hempty] at hi
  split
  · rename_i hbeyond
    have hplace := (isAhead_iff_offset hdelivers.next_le hlow (by omega)).1 hbeyond
    obtain ⟨h₁, h₂⟩ := hdelivers.hold hahead hplace hhigh hbrings
    exact ⟨h₁, places, h₂⟩
  · rename_i hbeyond
    have hplace : offset (sequence - s.origin) ≤ t.next.toNat := Int.not_lt.1 fun hlt =>
      hbeyond ((isAhead_iff_offset hdelivers.next_le hlow (by omega)).2 hlt)
    obtain ⟨places', h'⟩ := hdelivers.append hlow hhigh hplace hbrings
    exact h'.release

/-! ### Runs -/

/-- Whether a segment that is taken in lies within reach of the start of the stream, before it or
after it, and so does its end. -/
def Op.InReach (origin : UInt32) : Op → Prop
  | .insert sequence payload _ _ => -(reach : Int) < offset (sequence - origin) ∧
      offset (sequence - origin) + payload.length < reach
  | .skipGap => True

/-- Whether a segment that is taken in has a byte at a place. -/
def Op.Brings (origin : UInt32) (d : Nat) (x : UInt8) : Op → Prop
  | .insert sequence payload _ _ =>
    ∃ i : Nat, offset (sequence - origin) + i = d ∧ payload[i]? = some x
  | .skipGap => False

/-- Whether a run takes in a byte for a place when the stream has not passed it. -/
def TakesIn (s : Stream) (d : Nat) : List Op → Prop
  | [] => False
  | op :: later =>
    s.next.toNat ≤ d ∧ (∃ x, op.Brings s.origin d x) ∨ (s.perform op).TakesIn d later

/-- The stream after a run. -/
def after (s : Stream) (ops : List Op) : Stream :=
  ops.foldl perform s

theorem origin_release (s : Stream) : s.release.origin = s.origin :=
  (fields_releaseFrom s.waiting s).1

@[simp] theorem origin_perform (s : Stream) : ∀ op, (s.perform op).origin = s.origin
  | .insert sequence payload fin now => by
    obtain ⟨t, ht, hi⟩ := s.insert_eq sequence payload fin now
    have horigin : t.origin = s.origin := by rw [ht]
    rw [perform, hi]
    split_ifs
    · exact horigin
    · rw [(t.fields_hold _ _).1, horigin]
    · rw [origin_release, origin_append, horigin]
  | .skipGap => by
    rcases hw : s.waiting with _ | ⟨f, later⟩
    · simp [perform, skipGap?_nil hw]
    · simp [perform, skipGap?_cons hw, origin_release]

theorem Delivers.perform (h : s.Delivers brought taken places) (ha : s.Ahead) {op : Op}
    (hreach : op.InReach s.origin) (hbrings : ∀ d x, op.Brings s.origin d x → brought d x) :
    (s.perform op).Ahead ∧ ∃ places', (s.perform op).Delivers brought
      (fun d => taken d ∨ s.next.toNat ≤ d ∧ ∃ x, op.Brings s.origin d x) places' := by
  cases op with
  | insert sequence payload fin now =>
    obtain ⟨h₁, places', h₂⟩ := h.insert ha hreach.1 (Int.le_of_lt hreach.2)
      (fun i d x hi hid => hbrings d x ⟨i, hid, hi⟩) fin now
    refine ⟨h₁, places', { h₂ with taken_iff := fun d => Iff.trans ?_ (h₂.taken_iff d) }⟩
    refine or_congr_right (and_congr_right fun _ => ⟨?_, ?_⟩)
    · rintro ⟨x, i, hid, hi⟩
      exact ⟨i, (List.getElem?_eq_some_iff.1 hi).1, hid⟩
    · rintro ⟨i, hi, hid⟩
      exact ⟨_, i, hid, List.getElem?_eq_getElem hi⟩
  | skipGap =>
    have hsame : (fun d => taken d ∨ s.next.toNat ≤ d ∧ ∃ x, Op.skipGap.Brings s.origin d x)
        = taken := by
      funext d
      simp [Op.Brings]
    rw [hsame]
    rcases ht : s.skipGap? with _ | t
    · simpa [Stream.perform, ht] using ⟨ha, places, h⟩
    · simpa [Stream.perform, ht] using h.skipGap? ha ht

theorem Delivers.after {taken : Nat → Prop} : ∀ {ops : List Op} {s : Stream} {places : List Nat},
    s.Delivers brought taken places → s.Ahead → (∀ op ∈ ops, op.InReach s.origin) →
      (∀ op ∈ ops, ∀ d x, op.Brings s.origin d x → brought d x) →
        (s.after ops).Ahead ∧ ∃ places',
          (s.after ops).Delivers brought (fun d => taken d ∨ s.TakesIn d ops) places'
  | [], s, places, h, ha, _, _ => by
    simpa [Stream.after, TakesIn] using ⟨ha, places, h⟩
  | op :: later, s, places, h, ha, hreach, hbrings => by
    obtain ⟨ha', places', h'⟩ := h.perform ha (hreach op List.mem_cons_self)
      (hbrings op List.mem_cons_self)
    have hrest := h'.after ha'
      (by simpa using fun op hop => hreach op (List.mem_cons_of_mem _ hop))
      (by simpa using fun op hop => hbrings op (List.mem_cons_of_mem _ hop))
    simp only [or_assoc] at hrest
    exact hrest

/-- Ending a stream releases everything that waits. -/
theorem Delivers.finish (h : s.Delivers brought taken places) (ha : s.Ahead) :
    ∃ places', places'.Pairwise (· < ·) ∧ List.Forall₂ brought places' s.finish ∧
      ∀ d, d ∈ places' ↔ taken d := by
  obtain ⟨later, bytes, hend⟩ := exists_ending 0 s h.within
  have hbeyond := hend.next_lt fun e he => by
    rw [distance_zero, distance_zero]
    exact ha e (List.mem_of_mem_head? he)
  refine ⟨places ++ later, ?_, ?_, fun d => ?_⟩
  · refine List.pairwise_append.2 ⟨h.increasing, hend.increasing, fun a hpa b hb => ?_⟩
    have := hbeyond b hb
    rw [distance_zero] at this
    exact Nat.lt_trans (h.passed a hpa) this
  · rw [hend.finish_eq]
    exact List.rel_append h.bytes (hend.carried.imp fun d x ⟨e, he, hx⟩ => h.brings e he d x hx)
  · rw [List.mem_append, h.taken_iff]
    refine or_congr_right ⟨fun hd => ?_, fun ⟨e, he, hd⟩ => ?_⟩
    · have hcovered := covered_of_carried hend.carried d hd
      simp only [distance_zero] at hcovered
      exact hcovered
    · exact hend.complete (receding_of_inOrder h.inOrder) e he d (by rw [distance_zero]; exact hd.1)
        (by rw [distance_zero]; exact hd.2)

/-- On every run within reach of the start of the stream, whatever overlaps or contradicts what and
whichever gaps are given up, ending the stream delivers exactly one byte for each place that a
segment brought when the stream had not passed it, in order of the places, and each of these bytes
is one that some segment brought for its place. -/
theorem finish_delivers (origin : UInt32) (now : Nat) (ops : List Op)
    (hreach : ∀ op ∈ ops, op.InReach origin) :
    ∃ places : List Nat, places.Pairwise (· < ·) ∧
      List.Forall₂ (fun d x => ∃ op ∈ ops, op.Brings origin d x) places
        ((start origin now).after ops).finish ∧
      ∀ d, d ∈ places ↔ (start origin now).TakesIn d ops := by
  obtain ⟨ha, places, h⟩ := (delivers_start (fun d x => ∃ op ∈ ops, op.Brings origin d x) origin
    now).after (by simp [Ahead, start]) hreach fun op hop d x hx => ⟨op, hop, hx⟩
  obtain ⟨places', hinc, hbytes, htaken⟩ := h.finish ha
  exact ⟨places', hinc, hbytes, by simpa using htaken⟩

instance (origin : UInt32) : DecidablePred (Op.InReach origin)
  | .insert .. => inferInstanceAs (Decidable (_ ∧ _))
  | .skipGap => inferInstanceAs (Decidable True)

/-- A segment that begins before the stream, two that contradict each other beyond a gap, one that
overlaps what has been released, and one that comes when the gap has been given up. -/
def contradictory : List Op :=
  [.insert 98 [120, 120, 97, 98] false 0, .insert 105 [102, 103, 104] false 0,
    .insert 105 [70, 71] false 0, .insert 101 [66, 67] false 0, .skipGap,
    .insert 103 [100, 101] true 0]

theorem finish_delivers_contradictory :
    (∀ op ∈ contradictory, op.InReach 100) ∧
      ((start 100 0).after contradictory).finish = [97, 98, 67, 102, 103, 104] ∧
      ∃ places : List Nat, places.Pairwise (· < ·) ∧
        List.Forall₂ (fun d x => ∃ op ∈ contradictory, op.Brings 100 d x) places
          [97, 98, 67, 102, 103, 104] ∧
        ∀ d, d ∈ places ↔ (start 100 0).TakesIn d contradictory := by
  have hreach : ∀ op ∈ contradictory, op.InReach 100 := by decide +kernel
  have hfinish : ((start 100 0).after contradictory).finish = [97, 98, 67, 102, 103, 104] := by
    decide +kernel
  have h := finish_delivers 100 0 contradictory hreach
  rw [hfinish] at h
  exact ⟨hreach, hfinish, h⟩

end Stream

end Trawl.Reassembly
