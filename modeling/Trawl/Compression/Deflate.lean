import Trawl.Compression.PrefixCode

/-!
# Inflating

A deflated stream is a sequence of blocks, the last one marked. A block holds its bytes as they are,
or as symbols of two codes: literal bytes, and references back to `distance` bytes before. What lies
before the first byte counts as zeros. Output beyond a limit shows that the data is too large, so
from there on inflating ends where fetching more input or making more room would go on.
-/

namespace Trawl.Compression.Deflate

/-- A range of numbers, written as how far a number lies beyond the least of them. -/
structure Span where
  least : Nat
  /-- In how many bits the distance from the least number is written. -/
  width : Nat

/-- A symbol of the first code of a block. -/
inductive Symbol where
  | literal (octet : UInt8)
  | endOfBlock
  /-- The length of a reference back, which its distance follows. -/
  | length (span : Span)
  /-- A symbol without a meaning. -/
  | unassigned

/-- The lengths of references. -/
def lengthSpans : List Span :=
  [⟨3, 0⟩, ⟨4, 0⟩, ⟨5, 0⟩, ⟨6, 0⟩, ⟨7, 0⟩, ⟨8, 0⟩, ⟨9, 0⟩, ⟨10, 0⟩, ⟨11, 1⟩, ⟨13, 1⟩, ⟨15, 1⟩,
    ⟨17, 1⟩, ⟨19, 2⟩, ⟨23, 2⟩, ⟨27, 2⟩, ⟨31, 2⟩, ⟨35, 3⟩, ⟨43, 3⟩, ⟨51, 3⟩, ⟨59, 3⟩, ⟨67, 4⟩,
    ⟨83, 4⟩, ⟨99, 4⟩, ⟨115, 4⟩, ⟨131, 5⟩, ⟨163, 5⟩, ⟨195, 5⟩, ⟨227, 5⟩, ⟨258, 0⟩]

/-- The distances of references. -/
def distanceSpans : List Span :=
  [⟨1, 0⟩, ⟨2, 0⟩, ⟨3, 0⟩, ⟨4, 0⟩, ⟨5, 1⟩, ⟨7, 1⟩, ⟨9, 2⟩, ⟨13, 2⟩, ⟨17, 3⟩, ⟨25, 3⟩, ⟨33, 4⟩,
    ⟨49, 4⟩, ⟨65, 5⟩, ⟨97, 5⟩, ⟨129, 6⟩, ⟨193, 6⟩, ⟨257, 7⟩, ⟨385, 7⟩, ⟨513, 8⟩, ⟨769, 8⟩,
    ⟨1025, 9⟩, ⟨1537, 9⟩, ⟨2049, 10⟩, ⟨3073, 10⟩, ⟨4097, 11⟩, ⟨6145, 11⟩, ⟨8193, 12⟩,
    ⟨12289, 12⟩, ⟨16385, 13⟩, ⟨24577, 13⟩]

/-- The alphabet of the first code. -/
def alphabet : List Symbol :=
  (List.range 256).map (fun n => .literal (UInt8.ofNat n)) ++ [.endOfBlock] ++
    lengthSpans.map .length ++ List.replicate 2 .unassigned

/-- The alphabet of the code of distances; its last two symbols have no meaning. -/
def distanceAlphabet : List (Option Span) :=
  distanceSpans.map some ++ List.replicate 2 none

/-- The two codes of a block. -/
structure Codes where
  symbols : PrefixCode Symbol
  distances : PrefixCode (Option Span)

/-- The codes with these word lengths. -/
def Codes.ofLengths (symbols distances : List Nat) : Codes :=
  ⟨.ofLengths alphabet symbols, .ofLengths distanceAlphabet distances⟩

/-- The codes of blocks that state none. -/
def fixedCodes : Codes :=
  .ofLengths
    (List.replicate 144 8 ++ List.replicate 112 9 ++ List.replicate 24 7 ++ List.replicate 8 8)
    (List.replicate 32 5)

/-- A number of a span. -/
def Span.read (span : Span) (bits : Bits) : Except Halt (Nat × Bits) :=
  match bits.read span.width with
  | .error halt => .error halt
  | .ok (more, bits) => .ok (span.least + more, bits)

/-- A reference back: how many bytes to repeat, and from how far. -/
structure Reference where
  length : Nat
  distance : Nat

/-- The reference with a length of a span. -/
def readReference (codes : Codes) (lengths : Span) (bits : Bits) :
    Except Halt (Reference × Bits) :=
  match lengths.read bits with
  | .error halt => .error halt
  | .ok (length, bits) =>
    match codes.distances.read bits with
    | .error halt => .error halt
    | .ok (none, _) => .error .fault
    | .ok (some distances, bits) =>
      match distances.read bits with
      | .error halt => .error halt
      | .ok (distance, bits) => .ok (⟨length, distance⟩, bits)

/-- The output with so many bytes repeated from `distance` bytes before. -/
def repeatBack (distance : Nat) : (length : Nat) → Array UInt8 → Array UInt8
  | 0, out => out
  | length + 1, out =>
    let octet := if distance ≤ out.size then out.getD (out.size - distance) 0 else 0
    repeatBack distance length (out.push octet)

theorem Span.size_read {span : Span} {value : Nat} {bits bits' : Bits}
    (h : span.read bits = .ok (value, bits')) : bits'.size ≤ bits.size := by
  simp only [Span.read] at h
  split at h
  · simp at h
  · rename_i hr
    simp only [Except.ok.injEq, Prod.mk.injEq] at h
    rw [← h.2]
    exact Nat.le_of_add_right_le (Bits.size_read hr)

theorem size_readReference {codes : Codes} {lengths : Span} {reference : Reference}
    {bits bits' : Bits} (h : readReference codes lengths bits = .ok (reference, bits')) :
    bits'.size ≤ bits.size := by
  simp only [readReference] at h
  split at h
  · simp at h
  split at h
  · simp at h
  · simp at h
  split at h
  · simp at h
  · rename_i hl _ _ _ hd _ _ _ he
    simp only [Except.ok.injEq, Prod.mk.injEq] at h
    rw [← h.2]
    have := Span.size_read he
    have := PrefixCode.size_read hd
    have := Span.size_read hl
    omega

/-- Output is produced in windows of this many bytes. -/
def windowSize : Nat := 32768

/-- How far inflating goes. -/
structure Bounds where
  /-- With more bytes of output than this, no more input is fetched. -/
  limit : Nat
  /-- The most bytes of output. -/
  room : Nat
  deriving DecidableEq, Repr

namespace Bounds

/-- The bounds for a limit: the window that holds the byte after the first `limit` ones is produced
to its end. -/
def ofLimit (limit : Nat) : Bounds :=
  ⟨limit, (limit / windowSize + 1) * windowSize⟩

/-- The bits to go on with when so many bytes are produced. -/
def settle (bounds : Bounds) (produced : Nat) (bits : Bits) : Bits :=
  if bounds.limit < produced then bits.close else bits

theorem size_settle (bounds : Bounds) (produced : Nat) (bits : Bits) :
    (bounds.settle produced bits).size ≤ bits.size := by
  unfold settle
  split
  · exact bits.size_close
  · exact Nat.le_refl _

end Bounds

/-- Inflates the symbols up to the end of a block. -/
def inflateSymbols (codes : Codes) (bounds : Bounds) (bits : Bits) (out : Array UInt8) :
    Array UInt8 × Except Halt Bits :=
  match _hs : codes.symbols.read bits with
  | .error halt => (out, .error halt)
  | .ok (.literal octet, bits) =>
    if out.size < bounds.room then
      let out := out.push octet
      inflateSymbols codes bounds (bounds.settle out.size bits) out
    else (out, .error .exhausted)
  | .ok (.endOfBlock, bits) => (out, .ok bits)
  | .ok (.length lengths, bits) =>
    match _hr : readReference codes lengths bits with
    | .error halt => (out, .error halt)
    | .ok (reference, bits) =>
      let free := bounds.room - out.size
      let out := repeatBack reference.distance (min reference.length free) out
      if free < reference.length then (out, .error .exhausted)
      else inflateSymbols codes bounds (bounds.settle out.size bits) out
  | .ok (.unassigned, _) => (out, .error .fault)
termination_by bits.size
decreasing_by
  · exact Nat.lt_of_le_of_lt (bounds.size_settle _ _) (PrefixCode.size_read _hs)
  · exact Nat.lt_of_le_of_lt (bounds.size_settle _ _)
      (Nat.lt_of_le_of_lt (size_readReference _hr) (PrefixCode.size_read _hs))

/-- Takes in so many bytes as they are. -/
def inflateOctets (bounds : Bounds) :
    (count : Nat) → Bits → Array UInt8 → Array UInt8 × Except Halt Bits
  | 0, bits, out => (out, .ok bits)
  | count + 1, bits, out =>
    if out.size < bounds.room then
      match bits.read 8 with
      | .error halt => (out, .error halt)
      | .ok (value, bits) =>
        let out := out.push (UInt8.ofNat value)
        inflateOctets bounds count (bounds.settle out.size bits) out
    else (out, .error .exhausted)

/-- Takes in a block that holds its bytes as they are, after their number and its complement. -/
def inflateStored (bounds : Bounds) (bits : Bits) (out : Array UInt8) :
    Array UInt8 × Except Halt Bits :=
  match bits.align.read 32 with
  | .error halt => (out, .error halt)
  | .ok (lengths, bits) =>
    let length := lengths % 65536
    if length + lengths / 65536 ≠ 65535 then (out, .error .fault)
    else inflateOctets bounds length bits out

/-- A symbol of the code in which word lengths are written. -/
inductive LengthSymbol where
  | length (value : Nat)
  /-- The last length again. -/
  | again
  /-- Zeros, as many as a number of the span says. -/
  | zeros (count : Span)

/-- How often a length is repeated. -/
def againSpan : Span := ⟨3, 2⟩

/-- The alphabet of the code in which word lengths are written. -/
def lengthAlphabet : List LengthSymbol :=
  (List.range 16).map .length ++ [.again, .zeros ⟨3, 3⟩, .zeros ⟨11, 7⟩]

/-- The places in that alphabet, in the order in which its own word lengths are written. -/
def lengthOrder : List Nat :=
  [16, 17, 18, 0, 8, 7, 9, 6, 10, 5, 11, 4, 12, 3, 13, 2, 14, 1, 15]

/-- So many numbers of a width. -/
def readMany (width : Nat) : (count : Nat) → Bits → Except Halt (List Nat × Bits)
  | 0, bits => .ok ([], bits)
  | count + 1, bits =>
    match bits.read width with
    | .error halt => .error halt
    | .ok (value, bits) =>
      match readMany width count bits with
      | .error halt => .error halt
      | .ok (values, bits) => .ok (value :: values, bits)

/-- Word lengths, written as lengths and repetitions: `wanted` of them, of which `done` are read, the
last one first. -/
def readLengths (code : PrefixCode LengthSymbol) (wanted : Nat) (done : List Nat) (bits : Bits) :
    Except Halt (List Nat × Bits) :=
  if wanted ≤ done.length then
    if done.length = wanted then .ok (done.reverse, bits) else .error .fault
  else
    match _hs : code.read bits with
    | .error halt => .error halt
    | .ok (.length value, bits) => readLengths code wanted (value :: done) bits
    | .ok (.again, bits) =>
      match done with
      | [] => .error .fault
      | last :: _ =>
        match _hr : againSpan.read bits with
        | .error halt => .error halt
        | .ok (count, bits) => readLengths code wanted (List.replicate count last ++ done) bits
    | .ok (.zeros counts, bits) =>
      match _hr : counts.read bits with
      | .error halt => .error halt
      | .ok (count, bits) => readLengths code wanted (List.replicate count 0 ++ done) bits
termination_by bits.size
decreasing_by
  · exact PrefixCode.size_read _hs
  · exact Nat.lt_of_le_of_lt (Span.size_read _hr) (PrefixCode.size_read _hs)
  · exact Nat.lt_of_le_of_lt (Span.size_read _hr) (PrefixCode.size_read _hs)

/-- Whether a code may be used for a block: an incomplete one only if it is trivial. -/
def usable {α : Type} (code : PrefixCode α) : Bool :=
  code.isComplete || code.isTrivial

/-- The code in which word lengths are written, by its own word lengths in their written order. -/
def lengthCode (widths : List Nat) : PrefixCode LengthSymbol :=
  let written := lengthOrder.zip widths
  .ofLengths lengthAlphabet ((List.range 19).map fun place =>
    ((written.find? (·.1 = place)).map (·.2)).getD 0)

/-- The word lengths of so many symbols, with those of the code in which they are written. -/
def readTable (stated wanted : Nat) (bits : Bits) : Except Halt (List Nat × Bits) :=
  match readMany 3 stated bits with
  | .error halt => .error halt
  | .ok (widths, bits) =>
    let code := lengthCode widths
    if code.isComplete then readLengths code wanted [] bits else .error .fault

/-- The codes that a block states. -/
def readCodes (bits : Bits) : Except Halt (Codes × Bits) :=
  match bits.read 14 with
  | .error halt => .error halt
  | .ok (sizes, bits) =>
    let symbols := 257 + sizes % 32
    let distances := 1 + sizes / 32 % 32
    let stated := 4 + sizes / 1024
    if 286 < symbols ∨ 30 < distances then .error .fault
    else
      match readTable stated (symbols + distances) bits with
      | .error halt => .error halt
      | .ok (lengths, bits) =>
        let codes := Codes.ofLengths (lengths.take symbols) (lengths.drop symbols)
        if usable codes.symbols && usable codes.distances then .ok (codes, bits)
        else .error .fault

/-- Inflates the block of a kind. -/
def inflateBlock (kind : Nat) (bounds : Bounds) (bits : Bits) (out : Array UInt8) :
    Array UInt8 × Except Halt Bits :=
  if kind = 0 then inflateStored bounds bits out
  else if kind = 1 then inflateSymbols fixedCodes bounds bits out
  else if kind = 2 then
    match readCodes bits with
    | .error halt => (out, .error halt)
    | .ok (codes, bits) => inflateSymbols codes bounds bits out
  else (out, .error .fault)

theorem size_inflateSymbols {codes : Codes} {bounds : Bounds} {bits bits' : Bits}
    {out out' : Array UInt8} (h : inflateSymbols codes bounds bits out = (out', .ok bits')) :
    bits'.size ≤ bits.size := by
  fun_induction inflateSymbols codes bounds bits out with
  | case1 => simp at h
  | case2 bits out octet bits₁ hs _ out₁ ih =>
    have := PrefixCode.size_read hs
    have := bounds.size_settle out₁.size bits₁
    have := ih h
    omega
  | case3 => simp at h
  | case4 bits out bits₁ hs =>
    simp only [Prod.mk.injEq, Except.ok.injEq] at h
    have := PrefixCode.size_read hs
    rw [← h.2]
    omega
  | case5 => simp at h
  | case6 => simp at h
  | case7 bits out lengths bits₁ hs reference bits₂ hr free out₁ _ ih =>
    have := PrefixCode.size_read hs
    have := size_readReference hr
    have := bounds.size_settle out₁.size bits₂
    have := ih h
    omega
  | case8 => simp at h

theorem size_inflateOctets {bounds : Bounds} {count : Nat} {bits bits' : Bits}
    {out out' : Array UInt8} (h : inflateOctets bounds count bits out = (out', .ok bits')) :
    bits'.size ≤ bits.size := by
  induction count generalizing bits out with
  | zero =>
    simp only [inflateOctets, Prod.mk.injEq, Except.ok.injEq] at h
    simp [h.2]
  | succ count ih =>
    simp only [inflateOctets] at h
    split at h
    · split at h
      · simp at h
      · rename_i hr
        have := Bits.size_read hr
        have := ih h
        exact Nat.le_trans this (Nat.le_trans (bounds.size_settle _ _) (by omega))
    · simp at h

theorem size_inflateStored {bounds : Bounds} {bits bits' : Bits} {out out' : Array UInt8}
    (h : inflateStored bounds bits out = (out', .ok bits')) : bits'.size ≤ bits.size := by
  simp only [inflateStored] at h
  split at h
  · simp at h
  split at h
  · simp at h
  · rename_i hl _
    have := size_inflateOctets h
    have := Bits.size_read hl
    have := bits.size_align
    omega

theorem size_readMany {width count : Nat} {bits bits' : Bits} {values : List Nat}
    (h : readMany width count bits = .ok (values, bits')) : bits'.size ≤ bits.size := by
  induction count generalizing bits bits' values with
  | zero =>
    simp only [readMany, Except.ok.injEq, Prod.mk.injEq] at h
    simp [h.2]
  | succ count ih =>
    simp only [readMany] at h
    split at h
    · simp at h
    split at h
    · simp at h
    · rename_i hr _ _ _ hm
      simp only [Except.ok.injEq, Prod.mk.injEq] at h
      rw [← h.2]
      have := Bits.size_read hr
      have := ih hm
      omega

theorem size_readLengths {code : PrefixCode LengthSymbol} {wanted : Nat} {done lengths : List Nat}
    {bits bits' : Bits} (h : readLengths code wanted done bits = .ok (lengths, bits')) :
    bits'.size ≤ bits.size := by
  fun_induction readLengths code wanted done bits with
  | case1 =>
    simp only [Except.ok.injEq, Prod.mk.injEq] at h
    simp [h.2]
  | case2 => simp at h
  | case3 => simp at h
  | case4 done bits _ value bits₁ hs ih =>
    have := PrefixCode.size_read hs
    have := ih h
    omega
  | case5 => simp at h
  | case6 => simp at h
  | case7 bits bits₁ hs last done count bits₂ hr _ ih =>
    have := PrefixCode.size_read hs
    have := Span.size_read hr
    have := ih h
    omega
  | case8 => simp at h
  | case9 done bits _ counts bits₁ hs count bits₂ hr ih =>
    have := PrefixCode.size_read hs
    have := Span.size_read hr
    have := ih h
    omega

theorem size_readTable {stated wanted : Nat} {lengths : List Nat} {bits bits' : Bits}
    (h : readTable stated wanted bits = .ok (lengths, bits')) : bits'.size ≤ bits.size := by
  unfold readTable at h
  split at h
  · simp at h
  · rename_i hm
    dsimp only at h
    split at h
    · exact Nat.le_trans (size_readLengths h) (size_readMany hm)
    · simp at h

theorem size_readCodes {bits bits' : Bits} {codes : Codes}
    (h : readCodes bits = .ok (codes, bits')) : bits'.size ≤ bits.size := by
  unfold readCodes at h
  split at h
  · simp at h
  · rename_i hs
    dsimp only at h
    split at h
    · simp at h
    split at h
    · simp at h
    · rename_i ht
      split at h
      · simp only [Except.ok.injEq, Prod.mk.injEq] at h
        rw [← h.2]
        have := size_readTable ht
        have := Bits.size_read hs
        omega
      · simp at h

theorem size_inflateBlock {kind : Nat} {bounds : Bounds} {bits bits' : Bits}
    {out out' : Array UInt8} (h : inflateBlock kind bounds bits out = (out', .ok bits')) :
    bits'.size ≤ bits.size := by
  unfold inflateBlock at h
  split at h
  · exact size_inflateStored h
  split at h
  · exact size_inflateSymbols h
  split at h
  · split at h
    · simp at h
    · rename_i hc
      exact Nat.le_trans (size_inflateSymbols h) (size_readCodes hc)
  · simp at h

/-- Inflates the blocks up to the last one. -/
def inflateBlocks (bounds : Bounds) (bits : Bits) (out : Array UInt8) :
    Array UInt8 × Except Halt Bits :=
  match _hl : bits.read 1 with
  | .error halt => (out, .error halt)
  | .ok (last, bits) =>
    match _hk : bits.read 2 with
    | .error halt => (out, .error halt)
    | .ok (kind, bits) =>
      match _hb : inflateBlock kind bounds bits out with
      | (out, .error halt) => (out, .error halt)
      | (out, .ok bits) => if last = 1 then (out, .ok bits) else inflateBlocks bounds bits out
termination_by bits.size
decreasing_by
  have := Bits.size_read _hl
  have := Bits.size_read _hk
  have := size_inflateBlock _hb
  omega

/-- What inflating gives: the output, and what follows the stream if it ends. The stream stands
`offset` bytes behind the start of the data that is fetched. -/
def inflate (limit offset : Nat) (b : Bytes) : Array UInt8 × Except Halt Bytes :=
  let (out, ending) := inflateBlocks (.ofLimit limit) (.ofBytes offset b) #[]
  (out, ending.map (·.wholeBytes))

end Trawl.Compression.Deflate
