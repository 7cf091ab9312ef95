import Trawl.Json.Reader
import Trawl.Json.Value
import Trawl.Proofs.Text.Octets

/-!
# Reading JSON values

A reader of whole values, put together from the readers of their parts, and what these take off the
front of a text. A list or an object is read by steps, one for each item, and every step takes up
bytes; `Runs` leaves the bound on their number behind.
-/

namespace Trawl.Json

namespace Reader

/-! ### Values -/

/-- A number that has no fraction and no exponent. -/
def count : Reader Nat := do
  let whole ← wholeDigits
  let fraction ← fractionDigits
  let exponent ← exponent?
  if fraction.isEmpty && exponent.isNone then return decimal whole else throw .unsuitable

/-- The text that bytes are the UTF-8 form of. -/
def asText (b : Bytes) : Reader String :=
  match b.toText? with
  | some s => return s
  | none => throw .malformed

/-- Passes over the comma before an item, which the first one has not. -/
def separate (first : Bool) : Reader Unit :=
  if first then return () else expectToken 0x2C

/-- Another item of a list, or its end. The items so far are in reverse. -/
def itemStep (value : Reader Json) (first : Bool) (done : List Json) :
    Reader ((Bool × List Json) ⊕ List Json) := do
  if (← peekValue) = 0x5D then
    skip
    return .inr done.reverse
  else
    separate first
    return .inl (false, (← value) :: done)

/-- The items of a list, after its opening bracket. -/
def items (value : Reader Json) : Reader (List Json) :=
  iterate (fun (first, done) => itemStep value first done) (true, [])

/-- Another field of an object, or its end. The fields so far are in reverse. -/
def fieldStep (value : Reader Json) (first : Bool) (done : List (String × Json)) :
    Reader ((Bool × List (String × Json)) ⊕ List (String × Json)) := do
  match ← nextName first with
  | none => return .inr done.reverse
  | some name =>
    let name ← asText name
    expectToken 0x3A
    return .inl (false, (name, ← value) :: done)

/-- The fields of an object, after its opening brace. -/
def fields (value : Reader Json) : Reader (List (String × Json)) :=
  iterate (fun (first, done) => fieldStep value first done) (true, [])

/-- A value in which fewer than `depth` lists and objects are nested. -/
def valueWithin : (depth : Nat) → Reader Json
  | 0 => throw .malformed
  | depth + 1 => do
    let b ← peekValue
    if b = 0x22 then
      skip
      return .text (← asText (← string))
    else if isDigit b then return .number (← count)
    else if b = 0x6E then
      word "null"
      return .null
    else if b = 0x74 then
      word "true"
      return .bool true
    else if b = 0x66 then
      word "false"
      return .bool false
    else if b = 0x5B then
      skip
      return .list (← items (valueWithin depth))
    else if b = 0x7B then
      skip
      return .object (← fields (valueWithin depth))
    else reject

/-- A value. Every list and every object that it is nested in takes up a byte, so there are at most
as many of those as there are bytes. -/
def value : Reader Json := do
  valueWithin ((← get).length + 1)

/-! ### Taking something off the front -/

/-- A reader takes something off the front of a text, and leaves the rest. -/
def Takes {α : Type} (r : Reader α) (b : Bytes) (a : α) (rest : Bytes) : Prop :=
  StateT.run r b = .ok (a, rest)

section

variable {α β σ : Type} {b rest : Bytes} {x : UInt8}

theorem takes_pure (a : α) (b : Bytes) : Takes (pure a) b a b := rfl

theorem Takes.bind {r : Reader α} {f : α → Reader β} {a : α} {c : β} {middle : Bytes}
    (h : Takes r b a middle) (hf : Takes (f a) middle c rest) : Takes (r >>= f) b c rest := by
  unfold Takes at *
  rw [StateT.run_bind, h]
  exact hf

theorem Takes.map {r : Reader α} {f : α → β} {a : α} (h : Takes r b a rest) :
    Takes (do return f (← r)) b (f a) rest :=
  h.bind (takes_pure _ _)

theorem takes_get : Takes get b b b := rfl

theorem takes_skip : Takes skip (x :: rest) () rest := rfl

theorem takes_next : Takes next (x :: rest) x rest := rfl

theorem takes_peek : Takes peek b b.head? b := rfl

/-- What a step repeated from a state on takes off the front, whatever bound on the number of steps
leaves one for each byte and one more. -/
def Runs (step : σ → Reader (σ ⊕ α)) (s : σ) (b : Bytes) (a : α) (rest : Bytes) : Prop :=
  ∀ bound : Bytes, b.length < bound.length → Takes (iterateWithin step bound s) b a rest

variable {step : σ → Reader (σ ⊕ α)} {s s' : σ} {a : α}

theorem Runs.done (h : Takes (step s) b (.inr a) rest) : Runs step s b a rest := by
  intro bound hbound
  cases bound with
  | nil => simp at hbound
  | cons x bound => exact h.bind (takes_pure _ _)

theorem Runs.next {middle : Bytes} (h : Takes (step s) b (.inl s') middle)
    (hlength : middle.length < b.length) (hrun : Runs step s' middle a rest) :
    Runs step s b a rest := by
  intro bound hbound
  cases bound with
  | nil => simp at hbound
  | cons x bound =>
    rw [List.length_cons] at hbound
    exact h.bind (hrun bound (by omega))

theorem Runs.takes (h : Runs step s b a rest) : Takes (iterate step s) b a rest :=
  h (0 :: b) (by simp)

end

/-! ### Blanks and tokens -/

/-- Characters that may stand between tokens. -/
def Blank (w : List Char) : Prop :=
  ∀ c ∈ w, c ∈ [' ', '\n', '\t', '\r']

/-- Whether a byte is that of a blank. -/
def isBlank (b : UInt8) : Bool :=
  [0x20, 0x0A, 0x09, 0x0D].contains b

theorem blank_nil : Blank [] := by
  simp [Blank]

theorem Blank.append {v w : List Char} (hv : Blank v) (hw : Blank w) : Blank (v ++ w) := by
  intro c hc
  rcases List.mem_append.mp hc with hc | hc
  · exact hv c hc
  · exact hw c hc

section

variable {w : List Char} {x : UInt8} {rest : Bytes}

theorem dropWhile_blank (hw : Blank w) (b : Bytes) :
    (Bytes.ofChars w ++ b).dropWhile isBlank = b.dropWhile isBlank := by
  induction w with
  | nil => rfl
  | cons c w ih =>
    have hc : isBlank (UInt8.ofNat c.toNat) = true ∧ c.toNat < 0x80 := by
      have := hw c List.mem_cons_self
      simp only [List.mem_cons, List.not_mem_nil, or_false] at this
      rcases this with rfl | rfl | rfl | rfl <;> decide
    rw [Bytes.ofChars_cons, Bytes.encodeChar_of_ascii hc.2, List.append_assoc,
      List.singleton_append, List.dropWhile_cons_of_pos hc.1]
    exact ih fun d hd => hw d (List.mem_cons_of_mem c hd)

theorem takes_peekToken (hw : Blank w) (b : Bytes) :
    Takes peekToken (Bytes.ofChars w ++ b) (b.dropWhile isBlank).head? (b.dropWhile isBlank) := by
  have hskip : Takes skipBlanks (Bytes.ofChars w ++ b) () (b.dropWhile isBlank) := by
    rw [← dropWhile_blank hw b]
    rfl
  exact hskip.bind takes_peek

theorem takes_peekValue (hw : Blank w) (hx : isBlank x = false) :
    Takes peekValue (Bytes.ofChars w ++ x :: rest) x (x :: rest) := by
  have h := takes_peekToken hw (x :: rest)
  rw [List.dropWhile_cons_of_neg (by simp [hx])] at h
  exact h.bind (takes_pure _ _)

/-- A reader that looks for a byte first does not care for blanks before it. -/
theorem Takes.blank_append {α : Type} {f : UInt8 → Reader α} {b : Bytes} {a : α}
    (h : Takes (peekValue >>= f) b a rest) (hw : Blank w) :
    Takes (peekValue >>= f) (Bytes.ofChars w ++ b) a rest := by
  have hpeek : StateT.run peekValue (Bytes.ofChars w ++ b) = StateT.run peekValue b := by
    have hb : Bytes.ofChars [] ++ b = b := rfl
    have hleft := takes_peekToken hw b
    have hright := takes_peekToken blank_nil b
    rw [hb] at hright
    unfold Takes at hleft hright
    rw [peekValue, StateT.run_bind, StateT.run_bind, hleft, hright]
  unfold Takes at *
  rw [StateT.run_bind, hpeek, ← StateT.run_bind]
  exact h

theorem takes_expectToken (hw : Blank w) (hx : isBlank x = false) :
    Takes (expectToken x) (Bytes.ofChars w ++ x :: rest) () rest := by
  refine (takes_peekValue hw hx).bind ?_
  rw [if_pos rfl]
  exact takes_skip

end

/-! ### Words -/

theorem takes_word (s : String) (rest : Bytes) :
    Takes (word s) (Bytes.ofText s ++ rest) () rest := by
  unfold word
  generalize Bytes.ofText s = b
  induction b with
  | nil => exact takes_pure _ _
  | cons x b ih =>
    rw [List.forM]
    exact (takes_next.bind (by simpa using takes_pure _ _)).bind ih

end Reader

end Trawl.Json
