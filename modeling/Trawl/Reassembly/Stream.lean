import Trawl.Bytes

/-!
# One direction of a connection under reassembly

Positions are sequence numbers relative to the first byte of the stream and wrap as those do.
Bytes that continue what has been released are released at once, bytes before it are dropped as
repetitions, and bytes beyond it wait, in order of position, until the gap before them is filled or
given up.
-/

namespace Trawl.Reassembly

/-- Waiting bytes are accounted in pages of this many bytes. -/
def pageSize : Nat := 1900

/-- The pages that a segment of `length` bytes takes up. -/
def pagesFor (length : Nat) : Nat :=
  (length + (pageSize - 1)) / pageSize

/-- Whether position `a` lies ahead of position `b`: less than half the sequence space after it. -/
def isAhead (a b : UInt32) : Bool :=
  0 < a - b && a - b < 0x80000000

/-- The state of a stream. -/
structure Stream where
  /-- Sequence number of the first byte. -/
  origin : UInt32
  /-- Position of the next byte to release. -/
  next : UInt32
  /-- What has been released, newest slice first. -/
  slices : List Bytes
  /-- Segments beyond a gap, by position. -/
  waiting : List (UInt32 × Bytes)
  /-- Pages taken up by `waiting`. -/
  waitingPages : Nat
  /-- Position just after the last byte, once its sender has closed. -/
  finAt : Option UInt32
  /-- When a segment was last seen. -/
  lastSeen : Nat
  deriving DecidableEq, Repr

namespace Stream

/-- A stream whose first byte has sequence number `origin`. -/
def start (origin : UInt32) (now : Nat) : Stream where
  origin := origin
  next := 0
  slices := []
  waiting := []
  waitingPages := 0
  finAt := none
  lastSeen := now

/-- All released bytes in order. -/
def data (s : Stream) : Bytes :=
  s.slices.reverse.flatten

/-- Whether the sender has closed and everything before that has been passed. -/
def isFinished (s : Stream) : Bool :=
  match s.finAt with
  | some fin => fin ≤ s.next
  | none => false

/-- Releases the part of a segment that has not been passed yet. -/
def append (s : Stream) (position : UInt32) (segment : Bytes) : Stream :=
  let passed := (s.next - position).toNat
  if passed < segment.length then
    let fresh := segment.drop passed
    { s with
      next := s.next + UInt32.ofNat fresh.length
      slices := fresh :: s.slices }
  else s

/-- Releases segments from the front of `waiting` as long as they do not lie ahead. -/
def releaseFrom (s : Stream) : List (UInt32 × Bytes) → Stream
  | [] => { s with waiting := [] }
  | (position, segment) :: later =>
    if isAhead position s.next then { s with waiting := (position, segment) :: later }
    else
      ({ s with waitingPages := s.waitingPages - pagesFor segment.length }.append position
        segment).releaseFrom later

/-- Releases what waits no longer. -/
def release (s : Stream) : Stream :=
  s.releaseFrom s.waiting

/-- Waiting segments with one more: of two at the same position the longer is kept, the earlier one
where they are equally long. -/
def place (position : UInt32) (segment : Bytes) : List (UInt32 × Bytes) → List (UInt32 × Bytes)
  | [] => [(position, segment)]
  | (p, held) :: later =>
    if position < p then (position, segment) :: (p, held) :: later
    else if position = p then
      (p, if segment.length ≤ held.length then held else segment) :: later
    else (p, held) :: place position segment later

/-- The segment that waits at a position. -/
def waitingAt? (s : Stream) (position : UInt32) : Option Bytes :=
  (s.waiting.find? (·.1 = position)).map (·.2)

/-- Keeps a segment that lies ahead until its predecessors arrive. -/
def hold (s : Stream) (position : UInt32) (segment : Bytes) : Stream :=
  let pages := pagesFor segment.length
  match s.waitingAt? position with
  | some held =>
    if segment.length ≤ held.length then s
    else
      { s with
        waiting := place position segment s.waiting
        waitingPages := s.waitingPages - pagesFor held.length + pages }
  | none =>
    { s with
      waiting := place position segment s.waiting
      waitingPages := s.waitingPages + pages }

/-- Takes in a segment whose first payload byte has sequence number `sequence`. -/
def insert (s : Stream) (sequence : UInt32) (payload : Bytes) (fin : Bool) (now : Nat) : Stream :=
  let position := sequence - s.origin
  let s := { s with
    lastSeen := now
    finAt := if fin then some (position + UInt32.ofNat payload.length) else s.finAt }
  if payload.isEmpty then s
  else if isAhead position s.next then s.hold position payload
  else (s.append position payload).release

/-- Gives up the bytes that are missing before the first waiting segment. -/
def skipGap? (s : Stream) : Option Stream :=
  match s.waiting with
  | [] => none
  | (first, _) :: _ => some { s with next := first }.release

@[simp] theorem waiting_append (s : Stream) (position : UInt32) (segment : Bytes) :
    (s.append position segment).waiting = s.waiting := by
  unfold append
  dsimp only
  split <;> rfl

@[simp] theorem waitingPages_append (s : Stream) (position : UInt32) (segment : Bytes) :
    (s.append position segment).waitingPages = s.waitingPages := by
  unfold append
  dsimp only
  split <;> rfl

theorem length_waiting_releaseFrom (s : Stream) (held : List (UInt32 × Bytes)) :
    (s.releaseFrom held).waiting.length ≤ held.length := by
  induction held generalizing s with
  | nil => simp [releaseFrom]
  | cons entry later ih =>
    obtain ⟨position, segment⟩ := entry
    unfold releaseFrom
    split
    · simp
    · exact Nat.le_trans (ih _) (by simp)

theorem not_isAhead_self (a : UInt32) : isAhead a a = false := by
  simp [isAhead]

theorem length_waiting_skipGap? {s t : Stream} (h : s.skipGap? = some t) :
    t.waiting.length < s.waiting.length := by
  unfold skipGap? at h
  split at h
  · simp at h
  · rename_i first segment later hw
    simp only [Option.some.injEq] at h
    subst h
    simp only [release, hw, releaseFrom, not_isAhead_self, Bool.false_eq_true, ↓reduceIte]
    exact Nat.lt_of_le_of_lt (length_waiting_releaseFrom ..) (by simp)

/-- Gives up gaps until at most `limit` pages wait, or nothing does. -/
def relieve (limit : Nat) (s : Stream) : Stream :=
  if limit < s.waitingPages then
    match _h : s.skipGap? with
    | some t => relieve limit t
    | none => s
  else s
termination_by s.waiting.length
decreasing_by exact length_waiting_skipGap? _h

/-- Ends a stream: everything that waits is released, whatever is missing before it. -/
def finish (s : Stream) : Bytes :=
  match _h : s.skipGap? with
  | some t => finish t
  | none => s.data
termination_by s.waiting.length
decreasing_by exact length_waiting_skipGap? _h

end Stream

end Trawl.Reassembly
