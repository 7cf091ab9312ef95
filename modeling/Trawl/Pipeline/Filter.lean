import Trawl.Pipeline.Queue
import Trawl.Predicate

/-!
# Filters

A filter stands between two queues. It gathers a batch of what waits in the first, has the predicate
judge it, and passes what was accepted on to the second, waiting for room where there is none. Senders
and receivers may act between any two of its steps.
-/

namespace Trawl.Pipeline

/-- What a filter is doing. -/
inductive Phase (α : Type) where
  /-- It waits for its turn. -/
  | idle
  | gathering (batch : List α)
  | judging (batch : List α)
  /-- It passes on what was accepted of a batch, and then reports the failure of the predicate if
  that failed. -/
  | passing (accepted : List α) (failure : Option String)
  deriving DecidableEq, Repr

/-- A filter with the queues around it. -/
structure Filter (σ α : Type) where
  predicate : Predicate σ α
  /-- The size of a batch at most. -/
  burst : Nat
  input : Queue α
  output : Queue α
  memory : σ
  phase : Phase α
  /-- Whether nothing more is taken from the input. -/
  done : Bool
  /-- The items that the predicate was asked about, oldest first. -/
  asked : List α
  /-- How many items were put into the output. -/
  forwarded : Nat

namespace Filter

variable {σ α : Type}

/-- A new filter. -/
def start (predicate : Predicate σ α) (burst capacity : Nat) : Filter σ α :=
  ⟨predicate, burst, .empty capacity, .empty capacity, predicate.start, .idle, false, [], 0⟩

/-- What a turn of a filter comes to after one more step. -/
inductive Turn (σ α : Type) where
  | goesOn (filter : Filter σ α)
  | over (filter : Filter σ α)
  | failed (message : String) (filter : Filter σ α)

/-- The filter after a step. -/
def Turn.filter : Turn σ α → Filter σ α
  | .goesOn f => f
  | .over f => f
  | .failed _ f => f

/-- Ends the gathering of a batch. An empty one ends the turn. -/
def gathered (f : Filter σ α) (batch : List α) : Turn σ α :=
  if batch.isEmpty then .over { f with phase := .idle } else .goesOn { f with phase := .judging batch }

/-- Takes one more item into a batch, if it is not full and there is one. -/
def gather (f : Filter σ α) (batch : List α) : Turn σ α :=
  if f.burst ≤ batch.length then f.gathered batch
  else
    match f.input.receive? with
    | some (a, input) => .goesOn { f with input, phase := .gathering (batch ++ [a]) }
    | none =>
      if f.input.isOpen then f.gathered batch else { f with done := true }.gathered batch

/-- Has the predicate judge a batch. -/
def judge (f : Filter σ α) (batch : List α) : Filter σ α :=
  let verdict := f.predicate.judgeAll f.memory batch
  { f with
    memory := verdict.memory
    asked := f.asked ++ verdict.asked
    phase := .passing verdict.filtered.accepted verdict.filtered.failure }

/-- Ends a turn in which the predicate may have failed. -/
def conclude (f : Filter σ α) : Option String → Turn σ α
  | none => .over { f with phase := .idle }
  | some message => .failed message { f with phase := .idle, done := true }

/-- Passes an item on. It does not count where nobody takes it. -/
def forward? (f : Filter σ α) (a : α) (more : List α) (failure : Option String) :
    Option (Filter σ α) :=
  (f.output.send? a).map fun output =>
    { f with
      output
      forwarded := if f.output.hasReceiver then f.forwarded + 1 else f.forwarded
      phase := .passing more failure }

/-- The next step of a turn. Nothing if it has to wait for room in the output. -/
def step? (f : Filter σ α) : Option (Turn σ α) :=
  match f.phase with
  | .idle => some (if f.done then .over f else .goesOn { f with phase := .gathering [] })
  | .gathering batch => some (f.gather batch)
  | .judging batch => some (.goesOn (f.judge batch))
  | .passing [] failure => some (f.conclude failure)
  | .passing (a :: more) failure => (f.forward? a more failure).map .goesOn

/-- Breaks off a turn where it can be: while the predicate judges, whose verdict on the batch is then
ignored, or while items are passed on, of which those left are lost. A failure is still reported. -/
def breakOff? (f : Filter σ α) : Option (Turn σ α) :=
  match f.phase with
  | .judging batch => some (.over { f.judge batch with phase := .idle, done := true })
  | .passing (_ :: _) failure => some ({ f with done := true }.conclude failure)
  | _ => none

/-- Goes away: what waits in the input is lost, and nothing more comes to the output. -/
def stop (f : Filter σ α) : Filter σ α :=
  { f with input := f.input.abandon, output := f.output.close }

end Filter

end Trawl.Pipeline
