import Mathlib.Data.List.Infix
import Trawl.Predicate

/-!
# Verdicts on items in a row

The verdict on some items and then on others, with what the predicate remembers of the first, is the
verdict on all of them (`Predicate.judgeAll_append_of_none`); after a failure nothing is added to it
(`Predicate.judgeAll_append_of_some`).
-/

namespace Trawl

namespace Predicate

variable {σ α : Type} (p : Predicate σ α)

/-- The verdict on items from the start. -/
def verdict (items : List α) : Verdict σ α :=
  p.judgeAll p.start items

/-- A verdict and the one on the items after it. -/
def Verdict.andThen (v w : Verdict σ α) : Verdict σ α :=
  ⟨⟨v.filtered.accepted ++ w.filtered.accepted, w.filtered.failure⟩, w.memory, v.asked ++ w.asked⟩

theorem Verdict.andThen_assoc (u v w : Verdict σ α) :
    (u.andThen v).andThen w = u.andThen (v.andThen w) := by
  unfold andThen
  simp only [List.append_assoc]

variable {p} {s s' : σ} {a : α} {accept : Bool} {message : String}

theorem judgeAll_of_error (h : p.judge s a = .error message) (more : List α) :
    p.judgeAll s (a :: more) = ⟨⟨[], some message⟩, s, [a]⟩ := by
  rw [judgeAll, h]

theorem judgeAll_of_ok (h : p.judge s a = .ok (accept, s')) (more : List α) :
    p.judgeAll s (a :: more) =
      Verdict.andThen ⟨⟨if accept then [a] else [], none⟩, s', [a]⟩ (p.judgeAll s' more) := by
  rw [judgeAll, h]
  cases accept <;> rfl

theorem filtered_judgeAll (p : Predicate σ α) :
    ∀ (s : σ) (items : List α), (p.judgeAll s items).filtered = p.filterFrom s items
  | _, [] => rfl
  | s, a :: more => by
    unfold filterFrom
    rcases hj : p.judge s a with message | ⟨accept, s'⟩
    · rw [judgeAll_of_error hj]
    · rw [judgeAll_of_ok hj]
      dsimp only [Verdict.andThen]
      rw [filtered_judgeAll p s' more]
      cases accept <;> rfl

theorem judgeAll_append_of_none : ∀ {s : σ} {items : List α},
    (p.judgeAll s items).filtered.failure = none → ∀ more : List α,
      p.judgeAll s (items ++ more) =
        (p.judgeAll s items).andThen (p.judgeAll (p.judgeAll s items).memory more)
  | _, [], _, _ => rfl
  | s, a :: items, h, more => by
    rw [List.cons_append]
    rcases hj : p.judge s a with message | ⟨accept, s'⟩
    · simp [judgeAll_of_error hj] at h
    · rw [judgeAll_of_ok hj] at h ⊢
      rw [judgeAll_of_ok hj, judgeAll_append_of_none h more, Verdict.andThen_assoc]
      rfl

theorem judgeAll_append_of_some : ∀ {s : σ} {items : List α},
    (p.judgeAll s items).filtered.failure = some message → ∀ more : List α,
      p.judgeAll s (items ++ more) = p.judgeAll s items
  | _, [], h, _ => by simp [judgeAll] at h
  | s, a :: items, h, more => by
    rw [List.cons_append]
    rcases hj : p.judge s a with other | ⟨accept, s'⟩
    · rw [judgeAll_of_error hj, judgeAll_of_error hj]
    · rw [judgeAll_of_ok hj] at h ⊢
      rw [judgeAll_of_ok hj, judgeAll_append_of_some h more]

theorem asked_judgeAll (p : Predicate σ α) :
    ∀ (s : σ) (items : List α), (p.judgeAll s items).asked <+: items
  | _, [] => List.prefix_refl []
  | s, a :: more => by
    rcases hj : p.judge s a with message | ⟨accept, s'⟩
    · rw [judgeAll_of_error hj]
      exact ⟨more, rfl⟩
    · rw [judgeAll_of_ok hj]
      exact (List.prefix_cons_inj a).2 (asked_judgeAll p s' more)

/-- No more is accepted than was judged. -/
theorem length_accepted_judgeAll (p : Predicate σ α) : ∀ (s : σ) (items : List α),
    (p.judgeAll s items).filtered.accepted.length ≤ items.length
  | _, [] => Nat.le_refl 0
  | s, a :: items => by
    rcases hj : p.judge s a with message | ⟨accept, s'⟩
    · rw [judgeAll_of_error hj]
      exact Nat.zero_le _
    · rw [judgeAll_of_ok hj]
      have := length_accepted_judgeAll p s' items
      simp only [Verdict.andThen, List.length_append, List.length_cons]
      cases accept
      · simpa using Nat.le_succ_of_le this
      · simp only [if_true, List.length_cons, List.length_nil]
        omega

theorem filter_eq (p : Predicate σ α) (items : List α) :
    p.filter items = (p.verdict items).filtered :=
  (filtered_judgeAll p p.start items).symm

/-- After its failure, a predicate makes nothing of more items. -/
theorem filter_append_of_failure {items : List α} (h : (p.filter items).failure ≠ none)
    (more : List α) : p.filter (items ++ more) = p.filter items := by
  obtain ⟨message, hmessage⟩ := Option.ne_none_iff_exists'.1 h
  rw [filter_eq] at hmessage
  rw [filter_eq, filter_eq, verdict, judgeAll_append_of_some hmessage]
  rfl

theorem accepted_verdict_append (p : Predicate σ α) (items more : List α) :
    (p.verdict items).filtered.accepted <+: (p.verdict (items ++ more)).filtered.accepted := by
  unfold verdict
  cases h : (p.judgeAll p.start items).filtered.failure with
  | none =>
    rw [judgeAll_append_of_none h more]
    exact List.prefix_append ..
  | some message =>
    rw [judgeAll_append_of_some h more]

/-- After its failure, a predicate is not asked again. -/
theorem asked_ends_with_failure (p : Predicate σ α) {items before after : List α} {a : α}
    (hasked : (p.verdict items).asked = before ++ a :: after)
    (hfailed : (p.filter (before ++ [a])).failure ≠ none) : after = [] := by
  obtain ⟨message, hmessage⟩ := Option.ne_none_iff_exists'.1 hfailed
  rw [filter_eq] at hmessage
  obtain ⟨others, hitems⟩ := asked_judgeAll p p.start items
  have hshort := (asked_judgeAll p p.start (before ++ [a])).length_le
  have hsame := judgeAll_append_of_some hmessage (after ++ others)
  unfold verdict at hasked
  rw [hasked] at hitems
  rw [show before ++ [a] ++ (after ++ others) = items by simp [← hitems]] at hsame
  rw [← hsame, hasked] at hshort
  simp only [List.length_append, List.length_cons, List.length_nil] at hshort
  exact List.eq_nil_of_length_eq_zero (by omega)

end Predicate

/-- What fails for no items fails for no beginning of them. -/
theorem failure_filterIfAny_mono {σ α : Type} {predicate : Option (Predicate σ α)}
    {items all : List α} (h : items <+: all) (hall : (filterIfAny predicate all).failure = none) :
    (filterIfAny predicate items).failure = none := by
  cases predicate with
  | none => rfl
  | some p =>
    obtain ⟨more, rfl⟩ := h
    by_contra hfails
    have hsame : p.filter (items ++ more) = p.filter items := p.filter_append_of_failure hfails more
    rw [filterIfAny, hsame] at hall
    exact hfails hall

end Trawl
