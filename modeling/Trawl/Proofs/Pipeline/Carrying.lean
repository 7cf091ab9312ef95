import Trawl.Proofs.Pipeline.Dispatching

/-!
# What lanes carry

Everything that the capture sends comes to its lane, in order, but for what is sent where nobody
takes the output, or where a filter has gone away because a predicate failed (`Lane.Carries`). When
nothing is left to be sent and the filter, if there is one, has come to its end, the caller has been
handed what the predicate accepts of all that was captured (`Lane.Carries.delivered_eq`).
-/

namespace Trawl.Pipeline

namespace Lane

variable {σ α : Type} {l l' : Lane σ α} {capacity burst : Nat}

theorem capacity_receive? {q : Queue α} {taken : α × Queue α} (h : q.receive? = some taken) :
    taken.2.capacity = q.capacity ∧ taken.2.history = q.history := by
  unfold Queue.receive? at h
  split at h
  · cases h
  · rw [← Option.some.inj h]
    exact ⟨rfl, rfl⟩

theorem capacity_send? {q q' : Queue α} {a : α} (h : q.send? a = some q') :
    q'.capacity = q.capacity := by
  rcases Queue.send?_cases h with ⟨-, rfl⟩ | ⟨-, rfl⟩
  · rfl
  · rfl

theorem Moves.fits (hm : l.Moves l') (h : l.Fits capacity burst) : l'.Fits capacity burst := by
  cases hm with
  | rest => exact h
  | send _ hs =>
    obtain ⟨q', hsend, rfl⟩ := Option.map_eq_some_iff.1 hs
    have hsame := capacity_send? hsend
    cases l with
    | direct q => exact hsame.trans h
    | filtered f => exact ⟨hsame.trans h.1, h.2⟩
  | close =>
    cases l with
    | direct q => exact h
    | filtered f => exact h
  | receive hr =>
    obtain ⟨taken, htaken, rfl⟩ := Option.map_eq_some_iff.1 hr
    have hsame := (capacity_receive? htaken).1
    cases l with
    | direct q => exact hsame.trans h
    | filtered f => exact ⟨h.1, hsame.trans h.2.1, h.2.2⟩
  | abandon =>
    cases l with
    | direct q => exact h
    | filtered f => exact h

/-- Nothing comes back to a filter that takes no more. -/
theorem Moves.isDeserted (hm : l.Moves l') (h : l.IsDeserted) : l'.IsDeserted := by
  cases l with
  | direct q =>
    cases hm with
    | rest => trivial
    | send _ hs =>
      obtain ⟨q', -, rfl⟩ := Option.map_eq_some_iff.1 hs
      trivial
    | close => trivial
    | receive hr =>
      obtain ⟨taken, -, rfl⟩ := Option.map_eq_some_iff.1 hr
      trivial
    | abandon => trivial
  | filtered f =>
    cases hm with
    | rest => exact h
    | send _ hs =>
      obtain ⟨input, hsend, rfl⟩ := Option.map_eq_some_iff.1 hs
      rcases Queue.send?_cases hsend with ⟨-, rfl⟩ | ⟨hreceiver, -⟩
      · exact h
      · cases h.1.symm.trans hreceiver
    | close => exact h
    | receive hr =>
      obtain ⟨taken, -, rfl⟩ := Option.map_eq_some_iff.1 hr
      exact h
    | abandon => exact h

theorem isOpen_close (l : Lane σ α) : l.close.entrance.isOpen = false := by
  cases l with
  | direct q => rfl
  | filtered f => rfl

/-- A new lane has the sizes of the settings. -/
theorem fits_start (p : Option (Predicate σ α)) (burst capacity : Nat) (taken : Bool) :
    (start p burst capacity taken).Fits capacity burst := by
  cases p with
  | none =>
    cases taken with
    | true => rfl
    | false => rfl
  | some p =>
    cases taken with
    | true => exact ⟨rfl, rfl, rfl⟩
    | false => exact ⟨rfl, rfl, rfl⟩

theorem predicate?_start (p : Option (Predicate σ α)) (burst capacity : Nat) (taken : Bool) :
    (start p burst capacity taken).predicate? = p := by
  cases p with
  | none =>
    cases taken with
    | true => rfl
    | false => rfl
  | some p =>
    cases taken with
    | true => rfl
    | false => rfl

theorem follows_start (p : Option (Predicate σ α)) (burst capacity : Nat) (taken : Bool)
    {calm served stopped : Prop} :
    (start p burst capacity taken).Follows p calm [] served stopped := by
  have h : (start p burst capacity taken).Follows _ calm [] served stopped :=
    follows_of_isNew (isNew_start p burst capacity taken)
  rwa [predicate?_start] at h

/-! ### What is on its way -/

section Verdicts

variable {p : Option (Predicate σ α)} {reported : List String} {served stopped : Prop}

/-- A filter reports no failure where its predicate does not fail for what has arrived. -/
theorem Follows.reported_eq_nil (h : l.Follows p True reported served stopped)
    (hnone : (filterIfAny p l.arrived).failure = none) : reported = [] := by
  cases l with
  | direct q => exact h.2
  | filtered f =>
    obtain ⟨hp, ⟨judged, hf⟩, -⟩ := h
    obtain ⟨lost, hhistory, -⟩ := hf.arrived
    have hjudged : judged <+: f.input.history := by
      rw [hhistory, List.append_assoc, List.append_assoc]
      exact List.prefix_append ..
    rcases hf.standing with hu | ⟨-, -, hn⟩
    · have hfailure := hu.failure
      rw [hp] at hnone
      have hnone := failure_filterIfAny_mono hjudged hnone
      rw [← Predicate.filter_eq, ← filterIfAny, hnone] at hfailure
      exact (List.append_eq_nil_iff.1 hfailure.symm).1
    · exact absurd trivial hn

/-- A filter that has come to its end without a failure has seen the end of its input. -/
theorem Follows.isOpen_of_not_filters (h : l.Follows p True [] served stopped) (hserved : ¬ served)
    (hp : p.isSome = true) (hover : l.filters = false) : l.entrance.isOpen = false := by
  cases l with
  | direct q => rw [h.1] at hp; cases hp
  | filtered f =>
    obtain ⟨-, ⟨judged, hf⟩, hidle, -⟩ := h
    have hdone : f.done = true := by simpa [filters] using hover
    rcases hf.standing with hu | ⟨-, -, hn⟩
    · have hfailure := hu.failure
      rw [hidle hserved] at hfailure
      exact (hf.drained trivial hdone (Option.toList_eq_nil_iff.1 hfailure)).1
    · exact absurd trivial hn

end Verdicts

/-- What has come to a lane and what is still to be sent is all that was captured, unless something
got lost, which it may only do for a reason and where nobody takes what the capture sends. `taken`
says that the caller takes the output. -/
structure Carries (taken : Bool) (loses : Prop) (pending captured : List α) (l : Lane σ α) :
    Prop where
  exit : l.exit.hasReceiver = taken
  unseen : taken = false → l.delivered = []
  sent : ∃ lost, l.arrived ++ lost ++ pending = captured ∧
    (lost = [] ∨ l.entrance.hasReceiver = false ∧ loses)

section Carries

variable {taken : Bool} {loses loses' : Prop} {pending captured : List α}

theorem carries_start (p : Option (Predicate σ α)) (burst capacity : Nat) (taken : Bool)
    (loses : Prop) : (start p burst capacity taken).Carries taken loses [] [] := by
  cases p with
  | none =>
    cases taken with
    | true => exact ⟨rfl, fun _ => rfl, [], rfl, .inl rfl⟩
    | false => exact ⟨rfl, fun _ => rfl, [], rfl, .inl rfl⟩
  | some p =>
    cases taken with
    | true => exact ⟨rfl, fun _ => rfl, [], rfl, .inl rfl⟩
    | false => exact ⟨rfl, fun _ => rfl, [], rfl, .inl rfl⟩

theorem Carries.mono (h : l.Carries taken loses pending captured) (hl : loses → loses') :
    l.Carries taken loses' pending captured := by
  obtain ⟨lost, hsent, hlost⟩ := h.sent
  exact { h with sent := ⟨lost, hsent, hlost.imp id fun hl' => ⟨hl'.1, hl hl'.2⟩⟩ }

/-- More was captured, and it is still to be sent. -/
theorem Carries.grow (h : l.Carries taken loses [] captured) (more : List α) :
    l.Carries taken loses more (captured ++ more) := by
  obtain ⟨lost, hsent, hlost⟩ := h.sent
  rw [List.append_nil] at hsent
  exact { h with sent := ⟨lost, by rw [hsent], hlost⟩ }

theorem Carries.arrived_prefix (h : l.Carries taken loses pending captured) :
    l.arrived <+: captured := by
  obtain ⟨lost, hsent, -⟩ := h.sent
  rw [← hsent, List.append_assoc]
  exact List.prefix_append ..

theorem Carries.kept (h : l.Carries taken loses pending captured) (hk : l.Kept l') :
    l'.Carries taken loses pending captured := by
  obtain ⟨lost, hsent, hlost⟩ := h.sent
  refine ⟨hk.exit.trans h.exit, fun hnone => ?_, lost, ?_, ?_⟩
  · rw [hk.delivered (h.exit.trans hnone)]
    exact h.unseen hnone
  · rwa [hk.arrived]
  · exact hlost.imp id fun hl => ⟨hk.entrance hl.1, hl.2⟩

theorem Carries.close (h : l.Carries taken loses pending captured) :
    l.close.Carries taken loses pending captured := by
  cases l with
  | direct q => exact ⟨h.exit, h.unseen, h.sent⟩
  | filtered f => exact ⟨h.exit, h.unseen, h.sent⟩

theorem Carries.receive? (h : l.Carries taken loses pending captured) (hr : l.receive? = some l') :
    l'.Carries taken loses pending captured := by
  obtain ⟨received, hq, rfl⟩ := Option.map_eq_some_iff.1 hr
  unfold Queue.receive? at hq
  split at hq
  · cases hq
  · rw [← Option.some.inj hq]
    cases l with
    | direct q => exact ⟨h.exit, h.unseen, h.sent⟩
    | filtered f => exact ⟨h.exit, h.unseen, h.sent⟩

/-- An item is sent. It is lost where nobody takes it. -/
theorem Carries.send? {a : α} (h : l.Carries taken loses (a :: pending) captured)
    (hs : l.send? a = some l') (hloses : l.entrance.hasReceiver = false → loses) :
    l'.Carries taken loses pending captured := by
  obtain ⟨q, hsend, rfl⟩ := Option.map_eq_some_iff.1 hs
  obtain ⟨lost, hsent, hlost⟩ := h.sent
  rcases Queue.send?_cases hsend with ⟨hnone, rfl⟩ | ⟨hsome, rfl⟩
  · have hmore : l.arrived ++ (lost ++ [a]) ++ pending = captured := by
      rw [← hsent]
      simp
    cases l with
    | direct q => exact ⟨h.exit, h.unseen, lost ++ [a], hmore, .inr ⟨hnone, hloses hnone⟩⟩
    | filtered f => exact ⟨h.exit, h.unseen, lost ++ [a], hmore, .inr ⟨hnone, hloses hnone⟩⟩
  · -- nothing was lost before, since there is still a receiver
    obtain rfl : lost = [] := hlost.elim id fun hl => by simp [hsome] at hl
    have hmore : l.arrived ++ [a] ++ [] ++ pending = captured := by
      rw [← hsent]
      simp
    cases l with
    | direct q =>
      refine ⟨h.exit, fun htaken => ?_, [], hmore, .inl rfl⟩
      have hnone := h.exit.trans htaken
      simp [Lane.exit] at hnone
      simp [entrance, hnone] at hsome
    | filtered f => exact ⟨h.exit, h.unseen, [], hmore, .inl rfl⟩

variable {p : Option (Predicate σ α)} {reported : List String} {served stopped failed : Prop}

/-- Why nobody takes what the capture sends to a lane: nobody takes the output, or its filter went
away after a failure. -/
theorem Carries.reason (h : l.Carries taken loses pending captured)
    (hf : l.Follows p True reported served stopped) (hopen : l.entrance.isOpen = true)
    (hserved : stopped → ¬ served) (hended : stopped → l.filters = false ∨ failed)
    (hreported : reported ≠ [] → failed) (hgone : l.entrance.hasReceiver = false) :
    taken = false ∨ p.isSome = true ∧ failed := by
  cases l with
  | direct q => exact .inl (h.exit.symm.trans hgone)
  | filtered f =>
    have hp : p.isSome = true := by
      rw [hf.1]
      rfl
    have hstopped : stopped := by
      by_contra hgoing
      have hsome := hf.2.2.2 hgoing
      cases hsome.symm.trans hgone
    refine .inr ⟨hp, (hended hstopped).elim (fun hover => ?_) id⟩
    by_contra hnone
    obtain rfl : reported = [] := by
      by_contra hne
      exact hnone (hreported hne)
    have hclosed := hf.isOpen_of_not_filters (hserved hstopped) hp hover
    cases hopen.symm.trans hclosed

/-- Once everything was sent and the filter is done, the caller has been handed all that the
predicate accepts of what was captured, unless something got lost before it failed. -/
theorem Carries.delivered_eq (h : l.Carries taken loses [] captured)
    (hf : l.Follows p True reported served stopped) (hserved : ¬ served)
    (hdone : l.filters = false ∨ reported ≠ []) (hloses : taken = true → loses → reported ≠ []) :
    l.delivered = if taken then (filterIfAny p captured).accepted else [] := by
  cases htaken : taken with
  | false => exact h.unseen htaken
  | true =>
    obtain ⟨lost, hsent, hlost⟩ := h.sent
    rw [List.append_nil] at hsent
    cases l with
    | direct q =>
      obtain ⟨rfl, hreported⟩ := hf
      obtain rfl : lost = [] := hlost.elim id fun hl => absurd hreported (hloses htaken hl.2)
      rw [List.append_nil] at hsent
      exact hsent
    | filtered f =>
      obtain rfl := hf.1
      obtain ⟨hdelivered, hreported⟩ := hf.finished trivial hserved hdone (h.exit.trans htaken)
      rw [hdelivered, ← hsent]
      show _ = (f.predicate.filter _).accepted
      rcases hlost with rfl | hl
      · rw [List.append_nil]
      · -- what got lost came after the failure
        have hfails : (f.predicate.filter (Lane.filtered f).arrived).failure ≠ none := by
          intro hnone
          rw [hnone] at hreported
          exact hloses htaken hl.2 hreported
        rw [f.predicate.filter_append_of_failure hfails]

end Carries

end Lane

end Trawl.Pipeline
