import Trawl.Pipeline.Filter

/-!
# Lanes

The way of the items of one output from the capture to the caller: a single queue, or a filter with
its two queues where a predicate is set.
-/

namespace Trawl.Pipeline

/-- A lane. -/
inductive Lane (σ α : Type) where
  | direct (queue : Queue α)
  | filtered (filter : Filter σ α)

namespace Lane

variable {σ α : Type}

/-- The queue that the capture sends to. -/
def entrance : Lane σ α → Queue α
  | .direct q => q
  | .filtered f => f.input

/-- The queue that the caller receives from. -/
def exit : Lane σ α → Queue α
  | .direct q => q
  | .filtered f => f.output

/-- A lane with another first queue. -/
def withEntrance (l : Lane σ α) (q : Queue α) : Lane σ α :=
  match l with
  | .direct _ => .direct q
  | .filtered f => .filtered { f with input := q }

/-- A lane with another last queue. -/
def withExit (l : Lane σ α) (q : Queue α) : Lane σ α :=
  match l with
  | .direct _ => .direct q
  | .filtered f => .filtered { f with output := q }

/-- Sends an item. Nothing if the capture has to wait. -/
def send? (l : Lane σ α) (a : α) : Option (Lane σ α) :=
  (l.entrance.send? a).map l.withEntrance

/-- The capture sends no more. -/
def close (l : Lane σ α) : Lane σ α :=
  l.withEntrance l.entrance.close

/-- The caller takes an item. -/
def receive? (l : Lane σ α) : Option (Lane σ α) :=
  l.exit.receive?.map fun taken => l.withExit taken.2

/-- The caller takes no more. -/
def abandon (l : Lane σ α) : Lane σ α :=
  l.withExit l.exit.abandon

/-- A new lane, whose items the caller takes or not. -/
def start (predicate : Option (Predicate σ α)) (burst capacity : Nat) (taken : Bool) : Lane σ α :=
  let lane : Lane σ α :=
    match predicate with
    | none => .direct (.empty capacity)
    | some p => .filtered (.start p burst capacity)
  if taken then lane else lane.abandon

/-- The filter goes away, if there is one. -/
def stopFilter : Lane σ α → Lane σ α
  | .direct q => .direct q
  | .filtered f => .filtered f.stop

/-- Whether a filter in the lane is still at work. -/
def filters : Lane σ α → Bool
  | .direct _ => false
  | .filtered f => !f.done

/-- The items that were handed to the caller. -/
def delivered (l : Lane σ α) : List α :=
  l.exit.history

/-- How many items were handed to the caller, by the count of the filter if there is one. -/
def forwarded : Lane σ α → Nat
  | .direct q => q.history.length
  | .filtered f => f.forwarded

end Lane

end Trawl.Pipeline
