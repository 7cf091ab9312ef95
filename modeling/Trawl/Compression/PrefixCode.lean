import Trawl.Compression.Bits

/-!
# Canonical prefix codes

A code gives each symbol a word of one to fifteen bits, or none. It is determined by the lengths of
the words alone: shorter words come before longer ones, and words of one length follow each other in
the order of their symbols. A word is read bit by bit; at each length, `offset` says how far the bits
read so far lie beyond the first word of that length. Bits that begin no word are a fault as soon as
they are as many as the longest word has.
-/

namespace Trawl.Compression

/-- A canonical prefix code for symbols of a type. -/
structure PrefixCode (α : Type) where
  /-- How many words there are of one bit, of two bits and so on, up to the longest. -/
  counts : List Nat
  /-- The symbols, ordered by the length of their words and then as the alphabet has them. -/
  symbols : Array α
  deriving DecidableEq, Repr

namespace PrefixCode

variable {α : Type}

/-- The symbols of an alphabet whose word has a length. -/
def symbolsOfWidth (alphabet : List α) (lengths : List Nat) (width : Nat) : List α :=
  (alphabet.zip lengths).filterMap fun (symbol, length) =>
    if length = width then some symbol else none

/-- The code with these word lengths for the symbols of an alphabet; zero for no word. -/
def ofLengths (alphabet : List α) (lengths : List Nat) : PrefixCode α :=
  let words := (List.range' 1 (lengths.foldl max 1)).map (symbolsOfWidth alphabet lengths)
  ⟨words.map List.length, words.flatten.toArray⟩

/-- The share of all words of the greatest length that the words of a code begin, as a number of
words of that length. -/
def covered : List Nat → Nat
  | [] => 0
  | count :: counts => count <<< counts.length + covered counts

/-- Whether every sequence of bits begins with a word. -/
def isComplete (code : PrefixCode α) : Bool :=
  covered code.counts = 1 <<< code.counts.length

/-- Whether no symbol has a word, or one alone, of one bit. -/
def isTrivial (code : PrefixCode α) : Bool :=
  code.counts = [0] || code.counts = [1]

/-- Reads on from the bits that lie `offset` words beyond the first word of their length; the symbols
of shorter words come before `index`. -/
def readFrom (symbols : Array α) :
    (counts : List Nat) → (offset index : Nat) → Bits → Except Halt (α × Bits)
  | [], _, _, _ => .error .fault
  | count :: counts, offset, index, bits =>
    match bits.next with
    | .error halt => .error halt
    | .ok (bit, bits) =>
      let offset := 2 * offset + bit
      if offset < count then
        match symbols[index + offset]? with
        | some symbol => .ok (symbol, bits)
        | none => .error .fault
      else readFrom symbols counts (offset - count) (index + count) bits

/-- The symbol whose word comes next. -/
def read (code : PrefixCode α) (bits : Bits) : Except Halt (α × Bits) :=
  readFrom code.symbols code.counts 0 0 bits

theorem size_readFrom {symbols : Array α} {counts : List Nat} {offset index : Nat} {symbol : α}
    {bits bits' : Bits} (h : readFrom symbols counts offset index bits = .ok (symbol, bits')) :
    bits'.size < bits.size := by
  induction counts generalizing offset index bits with
  | nil => simp [readFrom] at h
  | cons count counts ih =>
    simp only [readFrom] at h
    split at h
    · simp at h
    · rename_i hn
      have hs := Bits.size_next hn
      split at h
      · split at h
        · simp only [Except.ok.injEq, Prod.mk.injEq] at h
          rw [← h.2]
          exact hs
        · simp at h
      · exact Nat.lt_trans (ih h) hs

theorem size_read {code : PrefixCode α} {symbol : α} {bits bits' : Bits}
    (h : code.read bits = .ok (symbol, bits')) : bits'.size < bits.size :=
  size_readFrom h

end PrefixCode

end Trawl.Compression
