import Mathlib.Algebra.GroupWithZero.Nat
import Mathlib.Tactic.SplitIfs
import Trawl.Reassembly.Stream

/-!
# The segments that wait in a stream

They lie in order of position, none of them is empty, and the pages that the stream counts are
theirs (`Stream.Accounted`). Taking in a segment, giving up a gap and relieving a stream keep that,
and a relieved stream is within its ceiling.
-/

namespace Trawl.Reassembly

/-- The pages that segments take up together. -/
def pagesOf (held : List (UInt32 × Bytes)) : Nat :=
  (held.map fun e => pagesFor e.2.length).sum

/-- The bytes of segments. -/
def bytesOf (held : List (UInt32 × Bytes)) : Nat :=
  (held.map fun e => e.2.length).sum

/-- Segments in order of position, at most one at each. -/
def InOrder (held : List (UInt32 × Bytes)) : Prop :=
  held.Pairwise fun a b => a.1 < b.1

theorem pagesOf_cons (p : UInt32) (x : Bytes) (held : List (UInt32 × Bytes)) :
    pagesOf ((p, x) :: held) = pagesFor x.length + pagesOf held := by
  simp [pagesOf]

theorem bytesOf_cons (p : UInt32) (x : Bytes) (held : List (UInt32 × Bytes)) :
    bytesOf ((p, x) :: held) = x.length + bytesOf held := by
  simp [bytesOf]

theorem length_le_pagesFor (n : Nat) : n ≤ pagesFor n * pageSize := by
  unfold pagesFor pageSize
  omega

theorem bytesOf_le_pagesOf : ∀ held : List (UInt32 × Bytes),
    bytesOf held ≤ pagesOf held * pageSize
  | [] => by simp [bytesOf]
  | (p, x) :: held => by
    have h := bytesOf_le_pagesOf held
    have hx := length_le_pagesFor x.length
    rw [bytesOf_cons, pagesOf_cons, Nat.add_mul]
    omega

theorem pagesFor_le_pagesOf {e : UInt32 × Bytes} : ∀ {held : List (UInt32 × Bytes)}, e ∈ held →
    pagesFor e.2.length ≤ pagesOf held
  | (p, x) :: held, h => by
    rw [pagesOf_cons]
    rcases List.mem_cons.1 h with rfl | h
    · exact Nat.le_add_right ..
    · exact Nat.le_add_left_of_le (pagesFor_le_pagesOf h)

namespace Stream

section Place

variable {position : UInt32} {segment : Bytes}

theorem mem_place {e : UInt32 × Bytes} : ∀ {held : List (UInt32 × Bytes)},
    e ∈ place position segment held →
      e = (position, segment) ∨ e ∈ held
  | [], h => by simpa [place] using h
  | (p, x) :: later, h => by
    simp only [place] at h
    by_cases hlt : position < p
    · rw [if_pos hlt] at h
      exact List.mem_cons.1 h
    rw [if_neg hlt] at h
    by_cases heq : position = p
    · rw [if_pos heq] at h
      rcases List.mem_cons.1 h with rfl | h
      · subst heq
        split_ifs
        · exact .inr List.mem_cons_self
        · exact .inl rfl
      · exact .inr (List.mem_cons_of_mem _ h)
    · rw [if_neg heq] at h
      rcases List.mem_cons.1 h with rfl | h
      · exact .inr List.mem_cons_self
      · exact (mem_place h).imp_right (List.mem_cons_of_mem _)

theorem inOrder_place : ∀ {held : List (UInt32 × Bytes)}, InOrder held →
    InOrder (place position segment held)
  | [], _ => by simp [place, InOrder]
  | (p, x) :: later, h => by
    obtain ⟨hp, hl⟩ := List.pairwise_cons.1 h
    simp only [place]
    by_cases hlt : position < p
    · rw [if_pos hlt]
      refine List.pairwise_cons.2 ⟨fun e he => ?_, h⟩
      rcases List.mem_cons.1 he with rfl | he
      · exact hlt
      · exact UInt32.lt_trans hlt (hp e he)
    rw [if_neg hlt]
    by_cases heq : position = p
    · rw [if_pos heq]
      exact List.pairwise_cons.2 ⟨hp, hl⟩
    · rw [if_neg heq]
      refine List.pairwise_cons.2 ⟨fun e he => ?_, inOrder_place hl⟩
      rcases mem_place he with rfl | he
      · exact UInt32.lt_of_le_of_ne (UInt32.not_lt.1 hlt) (Ne.symm heq)
      · exact hp e he

/-- A segment at a free position adds its pages. -/
theorem pagesOf_place_free : ∀ {held : List (UInt32 × Bytes)},
    held.find? (·.1 = position) = none →
      pagesOf (place position segment held) = pagesOf held + pagesFor segment.length
  | [], _ => by simp [place, pagesOf]
  | (p, x) :: later, h => by
    simp only [List.find?_cons] at h
    split at h
    · simp at h
    · rename_i hne
      simp only [place]
      have heq : ¬ position = p := fun he => by simp [he] at hne
      by_cases hlt : position < p
      · rw [if_pos hlt, pagesOf_cons position]
        omega
      · rw [if_neg hlt, if_neg heq, pagesOf_cons, pagesOf_cons, pagesOf_place_free h]
        omega

/-- A longer segment at a taken position takes the pages of the shorter one's place. -/
theorem pagesOf_place_taken {e : UInt32 × Bytes} : ∀ {held : List (UInt32 × Bytes)},
    InOrder held → held.find? (·.1 = position) = some e → e.2.length < segment.length →
      pagesOf (place position segment held) + pagesFor e.2.length
        = pagesOf held + pagesFor segment.length
  | [], _, h, _ => by simp at h
  | (p, x) :: later, ho, h, hlong => by
    obtain ⟨hp, hl⟩ := List.pairwise_cons.1 ho
    have hpos : e.1 = position := by simpa using List.find?_some h
    simp only [List.find?_cons] at h
    simp only [place]
    split at h
    · rename_i heq
      simp only [decide_eq_true_eq] at heq
      simp only [Option.some.injEq] at h
      subst h heq
      rw [if_neg (UInt32.lt_irrefl p), if_pos rfl, if_neg (Nat.not_le.2 hlong), pagesOf_cons,
        pagesOf_cons]
      show pagesFor segment.length + pagesOf later + pagesFor x.length = _
      omega
    · rename_i hne
      have heq : ¬ position = p := fun he => by simp [he] at hne
      have hlt : ¬ position < p := fun hlt => by
        have := hp e (List.mem_of_find?_eq_some h)
        rw [hpos] at this
        exact UInt32.lt_asymm hlt this
      have ih := pagesOf_place_taken hl h hlong
      rw [if_neg hlt, if_neg heq, pagesOf_cons, pagesOf_cons]
      omega

end Place

/-- What waits lies in order, none of it is empty, and its pages are those counted. -/
structure Accounted (s : Stream) : Prop where
  inOrder : InOrder s.waiting
  nonempty : ∀ e ∈ s.waiting, e.2 ≠ []
  pages : s.waitingPages = pagesOf s.waiting

/-- Taking in a segment notes when it came and whether it ends the stream, and then places it. -/
theorem insert_eq (s : Stream) (sequence : UInt32) (payload : Bytes) (fin : Bool) (now : Nat) :
    ∃ t, t = { s with
        lastSeen := now
        finAt := if fin then some (sequence - s.origin + UInt32.ofNat payload.length)
          else s.finAt } ∧
      s.insert sequence payload fin now =
        if payload.isEmpty then t
        else if isAhead (sequence - s.origin) t.next then t.hold (sequence - s.origin) payload
        else (t.append (sequence - s.origin) payload).release :=
  ⟨_, rfl, rfl⟩

theorem accounted_start (origin : UInt32) (now : Nat) : (start origin now).Accounted :=
  ⟨.nil, by simp [start], rfl⟩

theorem accounted_releaseFrom : ∀ {held : List (UInt32 × Bytes)} {s : Stream}, InOrder held →
    (∀ e ∈ held, e.2 ≠ []) → s.waitingPages = pagesOf held → (s.releaseFrom held).Accounted
  | [], s, _, _, hp => ⟨.nil, by simp [releaseFrom], by simpa [releaseFrom, pagesOf] using hp⟩
  | (position, x) :: later, s, ho, hn, hp => by
    simp only [releaseFrom]
    split
    · exact ⟨ho, hn, hp⟩
    · refine accounted_releaseFrom ho.of_cons (fun e he => hn e (List.mem_cons_of_mem _ he)) ?_
      rw [waitingPages_append]
      simp only [hp, pagesOf_cons]
      omega

theorem Accounted.release {s : Stream} (h : s.Accounted) : s.release.Accounted :=
  accounted_releaseFrom h.inOrder h.nonempty h.pages

theorem Accounted.append {s : Stream} (h : s.Accounted) (position : UInt32) (segment : Bytes) :
    (s.append position segment).Accounted :=
  ⟨by simpa using h.inOrder, by simpa using h.nonempty, by simpa using h.pages⟩

theorem Accounted.hold {s : Stream} (h : s.Accounted) (position : UInt32) {segment : Bytes}
    (hne : segment ≠ []) : (s.hold position segment).Accounted := by
  have hnonempty : ∀ e ∈ place position segment s.waiting, e.2 ≠ [] := by
    intro e he
    rcases mem_place he with rfl | he
    · exact hne
    · exact h.nonempty e he
  simp only [Stream.hold]
  split
  · rename_i held hheld
    split
    · exact h
    · rename_i hlong
      refine ⟨inOrder_place h.inOrder, hnonempty, ?_⟩
      obtain ⟨e, he, rfl⟩ := Option.map_eq_some_iff.1 hheld
      have := pagesOf_place_taken h.inOrder he (Nat.not_le.1 hlong)
      have := pagesFor_le_pagesOf (List.mem_of_find?_eq_some he)
      simp only [h.pages]
      omega
  · rename_i hfree
    refine ⟨inOrder_place h.inOrder, hnonempty, ?_⟩
    simp only [h.pages, pagesOf_place_free (Option.map_eq_none_iff.1 hfree)]

theorem Accounted.insert {s : Stream} (h : s.Accounted) (sequence : UInt32) (payload : Bytes)
    (fin : Bool) (now : Nat) : (s.insert sequence payload fin now).Accounted := by
  obtain ⟨t, ht, hi⟩ := s.insert_eq sequence payload fin now
  have hs : t.Accounted := by
    subst ht
    exact ⟨h.inOrder, h.nonempty, h.pages⟩
  rw [hi]
  split
  · exact hs
  · rename_i hne
    split
    · exact hs.hold _ (by simpa using hne)
    · exact (hs.append _ _).release

theorem Accounted.skipGap? {s t : Stream} (h : s.Accounted) (ht : s.skipGap? = some t) :
    t.Accounted := by
  simp only [Stream.skipGap?] at ht
  split at ht
  · simp at ht
  · simp only [Option.some.injEq] at ht
    subst ht
    exact Accounted.release ⟨h.inOrder, h.nonempty, h.pages⟩

theorem relieve_of_le {limit : Nat} {s : Stream} (h : s.waitingPages ≤ limit) :
    s.relieve limit = s := by
  unfold relieve
  rw [if_neg (Nat.not_lt.2 h)]

theorem relieve_of_some {limit : Nat} {s t : Stream} (h : limit < s.waitingPages)
    (ht : s.skipGap? = some t) : s.relieve limit = t.relieve limit := by
  rw [relieve, if_pos h]
  split
  · rename_i t' ht'
    rw [ht, Option.some.injEq] at ht'
    rw [ht']
  · rename_i ht'
    simp [ht] at ht'

theorem relieve_of_none {limit : Nat} {s : Stream} (h : s.skipGap? = none) :
    s.relieve limit = s := by
  unfold relieve
  split
  · split
    · rename_i t ht
      simp [h] at ht
    · rfl
  · rfl

theorem finish_of_some {s t : Stream} (h : s.skipGap? = some t) : s.finish = t.finish := by
  rw [finish]
  split
  · rename_i t' ht'
    rw [h, Option.some.injEq] at ht'
    rw [ht']
  · rename_i ht'
    simp [h] at ht'

theorem finish_of_none {s : Stream} (h : s.skipGap? = none) : s.finish = s.data := by
  rw [finish]
  split
  · rename_i t ht
    simp [h] at ht
  · rfl

theorem Accounted.relieve {s : Stream} (h : s.Accounted) (limit : Nat) :
    (s.relieve limit).Accounted ∧ (s.relieve limit).waitingPages ≤ limit := by
  fun_induction Stream.relieve limit s with
  | case1 s hover t ht ih => exact ih (h.skipGap? ht)
  | case2 s hover hnone =>
    have hw : s.waiting = [] := by
      simp only [Stream.skipGap?] at hnone
      split at hnone
      · assumption
      · simp at hnone
    have := h.pages
    simp only [hw, pagesOf, List.map_nil, List.sum_nil] at this
    omega
  | case3 s hover => exact ⟨h, Nat.not_lt.1 hover⟩

end Stream

end Trawl.Reassembly
