/-!
# Predicates

A predicate decides which items are passed on. It may remember what it has seen, and asking it gives
an answer or a failure. It is asked once for each item, in order, and never again after it has failed.
-/

namespace Trawl

/-- A predicate on items of a type, with its memory. -/
structure Predicate (σ α : Type) where
  start : σ
  /-- Whether an item is accepted, and the memory after it; or why the predicate failed. -/
  judge : σ → α → Except String (Bool × σ)

/-- What passing items through a predicate gives. -/
structure Filtered (α : Type) where
  accepted : List α
  /-- Why the predicate failed, if it did. -/
  failure : Option String
  deriving DecidableEq, Repr

namespace Predicate

variable {σ α : Type}

/-- Passes items through a predicate that remembers `s`. -/
def filterFrom (p : Predicate σ α) (s : σ) : List α → Filtered α
  | [] => ⟨[], none⟩
  | a :: more =>
    match p.judge s a with
    | .error message => ⟨[], some message⟩
    | .ok (accept, s) =>
      let rest := p.filterFrom s more
      { rest with accepted := if accept then a :: rest.accepted else rest.accepted }

/-- What judging some items one after the other gives. -/
structure Verdict (σ α : Type) where
  filtered : Filtered α
  /-- What the predicate remembers after them. -/
  memory : σ
  /-- The items that the predicate was asked about. -/
  asked : List α
  deriving DecidableEq, Repr

/-- Judges items, starting with the memory `s`, until there are no more or the predicate fails. -/
def judgeAll (p : Predicate σ α) (s : σ) : List α → Verdict σ α
  | [] => ⟨⟨[], none⟩, s, []⟩
  | a :: more =>
    match p.judge s a with
    | .error message => ⟨⟨[], some message⟩, s, [a]⟩
    | .ok (accept, s) =>
      let rest := p.judgeAll s more
      { filtered :=
          { rest.filtered with
            accepted := if accept then a :: rest.filtered.accepted else rest.filtered.accepted }
        memory := rest.memory
        asked := a :: rest.asked }

/-- Passes items through a predicate. -/
def filter (p : Predicate σ α) (items : List α) : Filtered α :=
  p.filterFrom p.start items

end Predicate

/-- Passes items through a predicate, if there is one. -/
def filterIfAny {σ α : Type} (predicate : Option (Predicate σ α)) (items : List α) : Filtered α :=
  match predicate with
  | none => ⟨items, none⟩
  | some p => p.filter items

end Trawl
