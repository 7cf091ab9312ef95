/-!
# Queues

A queue of limited size between one sender and one receiver. A sender that finds it full has to wait.
When the receiver is gone what waits is lost, and so is what is sent later.
-/

namespace Trawl.Pipeline

/-- A queue. -/
structure Queue (α : Type) where
  capacity : Nat
  /-- What waits, oldest first. -/
  waiting : List α
  /-- Everything that was ever put in, oldest first. -/
  history : List α
  /-- Whether the sender may send more. -/
  isOpen : Bool
  /-- Whether there is still a receiver. -/
  hasReceiver : Bool
  deriving DecidableEq, Repr

namespace Queue

variable {α : Type}

/-- A new queue. -/
def empty (capacity : Nat) : Queue α :=
  ⟨capacity, [], [], true, true⟩

/-- Puts an item at the end. -/
def put (q : Queue α) (a : α) : Queue α :=
  { q with waiting := q.waiting ++ [a], history := q.history ++ [a] }

/-- Whether an item can be put in without waiting. -/
def hasRoom (q : Queue α) : Bool :=
  q.waiting.length < q.capacity

/-- Sends an item. Nothing if the sender has to wait. -/
def send? (q : Queue α) (a : α) : Option (Queue α) :=
  if !q.hasReceiver then some q
  else if q.hasRoom then some (q.put a)
  else none

section Send

variable {q q' : Queue α} {a : α}

/-- An item is lost where there is no receiver, and otherwise it is put in. -/
theorem send?_cases (h : q.send? a = some q') :
    q.hasReceiver = false ∧ q' = q ∨ q.hasReceiver = true ∧ q' = q.put a := by
  unfold send? at h
  cases hreceiver : q.hasReceiver with
  | false =>
    rw [hreceiver] at h
    exact .inl ⟨rfl, (Option.some.inj h).symm⟩
  | true =>
    rw [hreceiver, if_neg (by decide)] at h
    split at h
    · exact .inr ⟨rfl, (Option.some.inj h).symm⟩
    · cases h

theorem hasReceiver_send? (h : q.send? a = some q') : q'.hasReceiver = q.hasReceiver := by
  rcases send?_cases h with ⟨-, rfl⟩ | ⟨-, rfl⟩
  · rfl
  · rfl

theorem isOpen_send? (h : q.send? a = some q') : q'.isOpen = q.isOpen := by
  rcases send?_cases h with ⟨-, rfl⟩ | ⟨-, rfl⟩
  · rfl
  · rfl

end Send

/-- Sends an item if there is room for it, and forgets about it otherwise. -/
def offer (q : Queue α) (a : α) : Queue α :=
  if q.hasReceiver && q.hasRoom then q.put a else q

/-- The oldest item, and the queue without it. -/
def receive? (q : Queue α) : Option (α × Queue α) :=
  match q.waiting with
  | [] => none
  | a :: more => some (a, { q with waiting := more })

/-- Whether nothing is left and nothing will come. -/
def isOver (q : Queue α) : Bool :=
  !q.isOpen && q.waiting.isEmpty

/-- The sender stops. -/
def close (q : Queue α) : Queue α :=
  { q with isOpen := false }

/-- The receiver goes away. -/
def abandon (q : Queue α) : Queue α :=
  { q with waiting := [], hasReceiver := false }

end Queue

end Trawl.Pipeline
