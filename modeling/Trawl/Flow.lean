import Trawl.Address

/-!
# Conversations and flows

A conversation is the unordered pair of ends that exchange segments, a flow one of its two
directions. The ends of a conversation are kept in order, so that one pair has one form whichever
end is named first.
-/

namespace Trawl

/-- Two ends that talk to each other, the lower one first. -/
structure Conversation where
  low : Endpoint
  high : Endpoint
  deriving DecidableEq, Hashable, Repr

/-- A direction within a conversation. -/
inductive Direction where
  | lowToHigh
  | highToLow
  deriving DecidableEq, Hashable, Repr

/-- The name of a direction in records. -/
def Direction.name : Direction → String
  | .lowToHigh => "low_to_high"
  | .highToLow => "high_to_low"

namespace Conversation

/-- The conversation between two ends, in whichever order they are given. -/
def between (a b : Endpoint) : Conversation :=
  if a ≤ b then ⟨a, b⟩ else ⟨b, a⟩

/-- The direction of what `source` sends. -/
def directionOf (c : Conversation) (source : Endpoint) : Direction :=
  if source = c.low then .lowToHigh else .highToLow

/-- Both ends, joined by a double arrow. -/
def toText (c : Conversation) : String :=
  c.low.toText ++ "<->" ++ c.high.toText

/-- Conversations are ordered by their lower end, then by their higher end. -/
def precedes (a b : Conversation) : Bool :=
  a.low.rank < b.low.rank || (a.low.rank = b.low.rank && a.high.rank ≤ b.high.rank)

/-- The conversations of a list in order, each once. -/
def sorted (cs : List Conversation) : List Conversation :=
  (cs.mergeSort precedes).foldr (fun c done =>
    if done.head? = some c then done else c :: done) []

end Conversation

/-- One direction of a conversation. -/
structure Flow where
  conversation : Conversation
  direction : Direction
  deriving DecidableEq, Hashable, Repr

namespace Flow

/-- The flow of what `source` sends to `target`. -/
def between (source target : Endpoint) : Flow :=
  let conversation := Conversation.between source target
  ⟨conversation, conversation.directionOf source⟩

/-- The end that sends. -/
def source (f : Flow) : Endpoint :=
  match f.direction with
  | .lowToHigh => f.conversation.low
  | .highToLow => f.conversation.high

/-- The end that receives. -/
def target (f : Flow) : Endpoint :=
  match f.direction with
  | .lowToHigh => f.conversation.high
  | .highToLow => f.conversation.low

/-- Sender and receiver, joined by an arrow. -/
def toText (f : Flow) : String :=
  f.source.toText ++ "->" ++ f.target.toText

end Flow

end Trawl
