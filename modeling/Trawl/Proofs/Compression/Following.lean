import Mathlib.Data.List.TakeWhile
import Trawl.Proofs.Bytes
import Trawl.Proofs.Compression.Limit

/-!
# Compressed data that more bytes follow

A reader of bits that finds something finds it where more bytes follow as well, and leaves off at
the same bit (`Steady`). Inflating goes on in this way as long as the output keeps to the limit;
what is fetched beyond the stream does not matter (`Deflate.inflate_append`). Hence a gzip member is
decoded the same whatever follows it (`Gzip.decode_append`).
-/

namespace Trawl.Compression

/-- The same bits where more bytes follow them. -/
structure Bits.Before (more : Bytes) (bits bits' : Bits) : Prop where
  octet : bits'.octet = bits.octet
  left : bits'.left = bits.left
  bytes : bits'.wholeBytes = bits.wholeBytes ++ more

/-- Whether what a reader finds is found where more bytes follow as well. -/
def Steady {α : Type} (reader : Bits → Except Halt (α × Bits)) : Prop :=
  ∀ (more : Bytes) (bits bits' next : Bits) (value : α), bits.Before more bits' →
    reader bits = .ok (value, next) →
      ∃ next', reader bits' = .ok (value, next') ∧ next.Before more next'

section Readers

variable {α β : Type} {reader reader' : Bits → Except Halt (α × Bits)}

theorem steady_pure (value : α) : Steady fun bits => .ok (value, bits) := by
  intro more bits bits' next v h hr
  cases hr
  exact ⟨bits', rfl, h⟩

theorem steady_error (halt : Halt) : Steady fun _ => (.error halt : Except Halt (α × Bits)) := by
  intro more bits bits' next v h hr
  cases hr

theorem Steady.before {more : Bytes} {bits bits' next : Bits} {value : α} (h : Steady reader)
    (hbits : bits.Before more bits') (hr : reader bits = .ok (value, next)) :
    ∃ next', reader bits' = .ok (value, next') ∧ next.Before more next' :=
  h more bits bits' next value hbits hr

theorem Steady.bind {next : α → Bits → Except Halt (β × Bits)} (h : Steady reader)
    (hn : ∀ value, Steady (next value)) :
    Steady fun bits => (reader bits).bind fun found => next found.1 found.2 := by
  intro more bits bits' last v hbits hr
  dsimp only at hr ⊢
  rcases h₁ : reader bits with halt | ⟨value, bits₁⟩ <;> rw [h₁] at hr
  · cases hr
  · obtain ⟨bits₁', h₁', hbits₁⟩ := h.before hbits h₁
    rw [h₁']
    exact (hn value).before hbits₁ hr

theorem Steady.congr (h : Steady reader) (heq : ∀ bits, reader' bits = reader bits) :
    Steady reader' := by
  rwa [funext heq]

end Readers

namespace Bits

/-- The bits of the next byte, whether it is fetched or not. -/
theorem next_of_wholeBytes (octet : Nat) {fetched pending rest : Bytes} {b : UInt8}
    (h : fetched ++ pending = b :: rest) :
    ∃ bits, next ⟨octet, 0, fetched, pending⟩ = .ok (b.toNat % 2, bits) ∧
      bits.octet = b.toNat / 2 ∧ bits.left = 7 ∧ bits.wholeBytes = rest := by
  rcases fetched with _ | ⟨x, fetched⟩
  · rw [List.nil_append] at h
    subst h
    exact ⟨_, rfl, rfl, rfl, List.take_append_drop ..⟩
  · obtain ⟨rfl, rfl⟩ := List.cons_eq_cons.1 h
    exact ⟨_, rfl, rfl, rfl, rfl⟩

theorem steady_next : Steady next := by
  rintro more ⟨octet, left, fetched, pending⟩ ⟨octet', left', fetched', pending'⟩ last bit h hr
  obtain ⟨rfl : octet' = octet, rfl : left' = left, hbytes⟩ := h
  simp only [wholeBytes] at hbytes
  -- Where a piece ends does not matter: a byte is read if there is one, fetched or not.
  rcases left' with _ | left
  · rcases hwhole : fetched ++ pending with _ | ⟨b, rest⟩
    · obtain ⟨rfl, rfl⟩ := List.append_eq_nil_iff.1 hwhole
      cases hr
    · rw [hwhole] at hbytes
      obtain ⟨bits, hnext, ho, hl, hw⟩ := next_of_wholeBytes octet' hwhole
      obtain ⟨bits', hnext', ho', hl', hw'⟩ := next_of_wholeBytes octet' hbytes
      rw [hnext] at hr
      cases hr
      exact ⟨bits', hnext', by rw [ho', ho], by rw [hl', hl], by rw [hw', hw]; rfl⟩
  · cases hr
    exact ⟨_, rfl, rfl, rfl, hbytes⟩

theorem steady_read : ∀ width : Nat, Steady (read width)
  | 0 => steady_pure 0
  | width + 1 => (steady_next.bind fun bit => (steady_read width).bind fun value =>
    steady_pure (bit + 2 * value)).congr fun bits => by
      rw [read]
      rcases bits.next with halt | ⟨bit, bits⟩
      · rfl
      · dsimp only [Except.bind]
        cases read width bits <;> rfl

theorem Before.align {more : Bytes} {bits bits' : Bits} (h : bits.Before more bits') :
    bits.align.Before more bits'.align :=
  ⟨rfl, rfl, h.bytes⟩

end Bits

theorem PrefixCode.steady_readFrom {α : Type} (symbols : Array α) (counts : List Nat)
    (offset index : Nat) : Steady (readFrom symbols counts offset index) := by
  induction counts generalizing offset index with
  | nil => exact steady_error .fault
  | cons count counts ih =>
    have hword (bit : Nat) : Steady fun bits =>
        if 2 * offset + bit < count then
          symbols[index + (2 * offset + bit)]?.elim (.error .fault) fun symbol => .ok (symbol, bits)
        else readFrom symbols counts (2 * offset + bit - count) (index + count) bits := by
      split_ifs
      · cases symbols[index + (2 * offset + bit)]? with
        | none => exact steady_error .fault
        | some symbol => exact steady_pure symbol
      · exact ih _ _
    refine (Bits.steady_next.bind hword).congr fun bits => ?_
    rw [readFrom]
    rcases bits.next with halt | ⟨bit, bits⟩
    · rfl
    · dsimp only [Except.bind]
      cases symbols[index + (2 * offset + bit)]? <;> rfl

theorem PrefixCode.steady_read {α : Type} (code : PrefixCode α) : Steady code.read :=
  steady_readFrom code.symbols code.counts 0 0

namespace Deflate

theorem Span.steady_read (span : Span) : Steady span.read :=
  ((Bits.steady_read span.width).bind fun more => steady_pure (span.least + more)).congr
    fun bits => by
      rw [read]
      cases bits.read span.width <;> rfl

theorem steady_readReference (codes : Codes) (lengths : Span) :
    Steady (readReference codes lengths) := by
  have hdistance (length : Nat) : ∀ distances : Option Span, Steady fun bits =>
      match distances with
      | none => .error .fault
      | some distances =>
        (distances.read bits).bind fun found => .ok (Reference.mk length found.1, found.2)
    | none => steady_error .fault
    | some distances => distances.steady_read.bind fun distance => steady_pure _
  have hlength (length : Nat) := codes.distances.steady_read.bind (hdistance length)
  refine (lengths.steady_read.bind hlength).congr fun bits => ?_
  rw [readReference]
  rcases lengths.read bits with halt | ⟨length, bits⟩
  · rfl
  dsimp only [Except.bind]
  rcases codes.distances.read bits with halt | ⟨_ | distances, bits⟩
  · rfl
  · rfl
  dsimp only
  cases distances.read bits <;> rfl

theorem steady_readMany (width : Nat) : ∀ count : Nat, Steady (readMany width count)
  | 0 => steady_pure []
  | count + 1 => ((Bits.steady_read width).bind fun value =>
      (steady_readMany width count).bind fun values => steady_pure (value :: values)).congr
    fun bits => by
      rw [readMany]
      rcases bits.read width with halt | ⟨value, bits⟩
      · rfl
      · dsimp only [Except.bind]
        cases readMany width count bits <;> rfl

theorem readLengths_def {code : PrefixCode LengthSymbol} {wanted : Nat} {done : List Nat}
    {bits : Bits} : readLengths code wanted done bits =
      if wanted ≤ done.length then
        if done.length = wanted then .ok (done.reverse, bits) else .error .fault
      else
        match code.read bits with
        | .error halt => .error halt
        | .ok (.length value, bits) => readLengths code wanted (value :: done) bits
        | .ok (.again, bits) =>
          match done with
          | [] => .error .fault
          | last :: _ =>
            match againSpan.read bits with
            | .error halt => .error halt
            | .ok (count, bits) => readLengths code wanted (List.replicate count last ++ done) bits
        | .ok (.zeros counts, bits) =>
          match counts.read bits with
          | .error halt => .error halt
          | .ok (count, bits) => readLengths code wanted (List.replicate count 0 ++ done) bits := by
  rw [readLengths.eq_def]
  split_ifs
  · rfl
  · rfl
  split <;> rename_i hs <;> simp only [hs]
  · split
    · rfl
    · split <;> rename_i hr <;> simp only [hr]
  · split <;> rename_i hr <;> simp only [hr]

theorem steady_readLengths (code : PrefixCode LengthSymbol) (wanted : Nat) (done : List Nat) :
    Steady (readLengths code wanted done) := by
  intro more bits bits' next lengths hbits h
  fun_induction readLengths code wanted done bits generalizing bits' with
  | case1 done bits hle hlength =>
    cases h
    exact ⟨bits', by rw [readLengths_def, if_pos hle, if_pos hlength], hbits⟩
  | case2 => cases h
  | case3 => cases h
  | case4 done bits hlt value bits₁ hs ih =>
    obtain ⟨bits₁', hs', hbits₁⟩ := code.steady_read.before hbits hs
    rw [readLengths_def, if_neg hlt, hs']
    exact ih bits₁' hbits₁ h
  | case5 => cases h
  | case6 => cases h
  | case7 bits bits₁ hs last done count bits₂ hr hlt ih =>
    obtain ⟨bits₁', hs', hbits₁⟩ := code.steady_read.before hbits hs
    obtain ⟨bits₂', hr', hbits₂⟩ := againSpan.steady_read.before hbits₁ hr
    rw [readLengths_def, if_neg hlt, hs']
    dsimp only
    rw [hr']
    exact ih bits₂' hbits₂ h
  | case8 => cases h
  | case9 done bits hlt counts bits₁ hs count bits₂ hr ih =>
    obtain ⟨bits₁', hs', hbits₁⟩ := code.steady_read.before hbits hs
    obtain ⟨bits₂', hr', hbits₂⟩ := counts.steady_read.before hbits₁ hr
    rw [readLengths_def, if_neg hlt, hs']
    dsimp only
    rw [hr']
    exact ih bits₂' hbits₂ h

theorem steady_readTable (stated wanted : Nat) : Steady (readTable stated wanted) := by
  have hlengths (widths : List Nat) : Steady fun bits =>
      if (lengthCode widths).isComplete then readLengths (lengthCode widths) wanted [] bits
      else .error .fault := by
    split_ifs
    · exact steady_readLengths _ wanted []
    · exact steady_error .fault
  refine ((steady_readMany 3 stated).bind hlengths).congr fun bits => ?_
  unfold readTable
  rcases readMany 3 stated bits with halt | ⟨widths, bits⟩
  · rfl
  · dsimp only [Except.bind]

theorem steady_readCodes : Steady readCodes := by
  have hcodes (symbols : Nat) (lengths : List Nat) : Steady fun bits =>
      let codes := Codes.ofLengths (lengths.take symbols) (lengths.drop symbols)
      if usable codes.symbols && usable codes.distances then .ok (codes, bits)
      else .error .fault := by
    dsimp only
    split_ifs
    · exact steady_pure _
    · exact steady_error .fault
  have hsizes (sizes : Nat) : Steady fun bits =>
      if 286 < 257 + sizes % 32 ∨ 30 < 1 + sizes / 32 % 32 then .error .fault
      else (readTable (4 + sizes / 1024) (257 + sizes % 32 + (1 + sizes / 32 % 32)) bits).bind
        fun found =>
          let codes := Codes.ofLengths (found.1.take (257 + sizes % 32))
            (found.1.drop (257 + sizes % 32))
          if usable codes.symbols && usable codes.distances then .ok (codes, found.2)
          else .error .fault := by
    split_ifs
    · exact steady_error .fault
    · exact (steady_readTable _ _).bind (hcodes _)
  refine ((Bits.steady_read 14).bind hsizes).congr fun bits => ?_
  rw [readCodes]
  rcases bits.read 14 with halt | ⟨sizes, bits⟩
  · rfl
  dsimp only [Except.bind]
  split_ifs
  · rfl
  · cases readTable _ _ bits <;> rfl

/-! ### Output that keeps to the limit -/

section Inflating

variable {codes : Codes} {bounds : Bounds} {more : Bytes} {bits bits' next : Bits}
  {out out' : Array UInt8}

theorem inflateSymbols_before (h : inflateSymbols codes bounds bits out = (out', .ok next))
    (hlimit : out'.size ≤ bounds.limit) : ∀ {bits' : Bits}, bits.Before more bits' →
      ∃ next', inflateSymbols codes bounds bits' out = (out', .ok next') ∧
        next.Before more next' := by
  fun_induction inflateSymbols codes bounds bits out with
  | case1 => cases h
  | case2 bits out octet bits₁ hs hroom out₁ ih =>
    intro bits' hbits
    obtain ⟨bits₁', hs', hbits₁⟩ := codes.symbols.steady_read.before hbits hs
    -- Output only grows: it keeps to the limit here as well, so that the bits are not closed.
    have hgrow := size_le_inflateSymbols codes bounds (bounds.settle out₁.size bits₁) out₁
    rw [h] at hgrow
    have hkept : out₁.size ≤ bounds.limit := Nat.le_trans hgrow hlimit
    have hpush : out₁.size = out.size + 1 := Array.size_push ..
    rw [Bounds.settle_of_le hkept] at h ih
    rw [inflateSymbols_def, hs']
    dsimp only
    rw [if_pos hroom, Bounds.settle_of_le (hpush ▸ hkept)]
    exact ih h hbits₁
  | case3 => cases h
  | case4 bits out bits₁ hs =>
    intro bits' hbits
    cases h
    obtain ⟨bits₁', hs', hbits₁⟩ := codes.symbols.steady_read.before hbits hs
    exact ⟨bits₁', by rw [inflateSymbols_def, hs'], hbits₁⟩
  | case5 => cases h
  | case6 => simp at h
  | case7 bits out lengths bits₁ hs reference bits₂ hr free out₁ hfree =>
    rename_i ih
    intro bits' hbits
    obtain ⟨bits₁', hs', hbits₁⟩ := codes.symbols.steady_read.before hbits hs
    obtain ⟨bits₂', hr', hbits₂⟩ := (steady_readReference codes lengths).before hbits₁ hr
    have hgrow := size_le_inflateSymbols codes bounds (bounds.settle out₁.size bits₂) out₁
    rw [h] at hgrow
    have hkept : out₁.size ≤ bounds.limit := Nat.le_trans hgrow hlimit
    rw [Bounds.settle_of_le hkept] at h ih
    rw [inflateSymbols_def, hs']
    dsimp only
    rw [hr']
    dsimp only
    rw [if_neg hfree, Bounds.settle_of_le hkept]
    exact ih h hbits₂
  | case8 => cases h

theorem inflateOctets_before : ∀ {count : Nat} {bits bits' : Bits} {out : Array UInt8},
    bits.Before more bits' → inflateOctets bounds count bits out = (out', .ok next) →
      out'.size ≤ bounds.limit →
        ∃ next', inflateOctets bounds count bits' out = (out', .ok next') ∧ next.Before more next'
  | 0, bits, bits', out, hbits, h, _ => by
    cases h
    exact ⟨bits', rfl, hbits⟩
  | count + 1, bits, bits', out, hbits, h, hlimit => by
    rw [inflateOctets] at h ⊢
    split_ifs at h ⊢ with hroom
    · rcases hr : bits.read 8 with halt | ⟨value, bits₁⟩ <;> rw [hr] at h
      · cases h
      · obtain ⟨bits₁', hr', hbits₁⟩ := (Bits.steady_read 8).before hbits hr
        rw [hr']
        dsimp only at h ⊢
        have hgrow := size_le_inflateOctets bounds count
          (bounds.settle (out.push (UInt8.ofNat value)).size bits₁) (out.push (UInt8.ofNat value))
        rw [h] at hgrow
        have hkept := Nat.le_trans hgrow hlimit
        rw [Bounds.settle_of_le hkept] at h ⊢
        exact inflateOctets_before hbits₁ h hlimit
    · cases h

theorem inflateStored_before (hbits : bits.Before more bits')
    (h : inflateStored bounds bits out = (out', .ok next)) (hlimit : out'.size ≤ bounds.limit) :
    ∃ next', inflateStored bounds bits' out = (out', .ok next') ∧ next.Before more next' := by
  rw [inflateStored] at h ⊢
  rcases hr : bits.align.read 32 with halt | ⟨lengths, bits₁⟩ <;> rw [hr] at h
  · cases h
  · obtain ⟨bits₁', hr', hbits₁⟩ := (Bits.steady_read 32).before hbits.align hr
    rw [hr']
    dsimp only at h ⊢
    split_ifs at h ⊢
    · cases h
    · exact inflateOctets_before hbits₁ h hlimit

theorem inflateBlock_before {kind : Nat} (hbits : bits.Before more bits')
    (h : inflateBlock kind bounds bits out = (out', .ok next)) (hlimit : out'.size ≤ bounds.limit) :
    ∃ next', inflateBlock kind bounds bits' out = (out', .ok next') ∧ next.Before more next' := by
  rw [inflateBlock] at h ⊢
  split_ifs at h ⊢
  · exact inflateStored_before hbits h hlimit
  · exact inflateSymbols_before h hlimit hbits
  · rcases hr : readCodes bits with halt | ⟨codes, bits₁⟩ <;> rw [hr] at h
    · cases h
    · obtain ⟨bits₁', hr', hbits₁⟩ := steady_readCodes.before hbits hr
      rw [hr']
      exact inflateSymbols_before h hlimit hbits₁
  · cases h

theorem inflateBlocks_before (hbits : bits.Before more bits')
    (h : inflateBlocks bounds bits out = (out', .ok next)) (hlimit : out'.size ≤ bounds.limit) :
    ∃ next', inflateBlocks bounds bits' out = (out', .ok next') ∧ next.Before more next' := by
  fun_induction inflateBlocks bounds bits out generalizing bits' with
  | case1 => cases h
  | case2 => cases h
  | case3 => cases h
  | case4 bits out bits₁ kind bits₂ hk out₁ bits₃ hb hl =>
    cases h
    obtain ⟨bits₁', hl', hbits₁⟩ := (Bits.steady_read 1).before hbits hl
    obtain ⟨bits₂', hk', hbits₂⟩ := (Bits.steady_read 2).before hbits₁ hk
    obtain ⟨bits₃', hb', hbits₃⟩ := inflateBlock_before hbits₂ hb hlimit
    refine ⟨bits₃', ?_, hbits₃⟩
    rw [inflateBlocks_def]
    simp only [hl', hk', hb']
    rw [if_pos trivial]
  | case5 bits out last bits₁ hl kind bits₂ hk out₁ bits₃ hb hlast ih =>
    have hgrow := size_le_inflateBlocks bounds bits₃ out₁
    rw [h] at hgrow
    obtain ⟨bits₁', hl', hbits₁⟩ := (Bits.steady_read 1).before hbits hl
    obtain ⟨bits₂', hk', hbits₂⟩ := (Bits.steady_read 2).before hbits₁ hk
    obtain ⟨bits₃', hb', hbits₃⟩ := inflateBlock_before hbits₂ hb (Nat.le_trans hgrow hlimit)
    rw [inflateBlocks_def]
    simp only [hl', hk', hb']
    rw [if_neg hlast]
    exact ih hbits₃ h

/-- Inflating does not see what follows a stream. -/
theorem inflate_append {limit offset : Nat} {b rest : Bytes} (more : Bytes)
    (h : inflate limit offset b = (out, .ok rest)) (hlimit : out.size ≤ limit) :
    inflate limit offset (b ++ more) = (out, .ok (rest ++ more)) := by
  have hstart : (Bits.ofBytes offset b).Before more (Bits.ofBytes offset (b ++ more)) :=
    ⟨rfl, rfl, by simp [Bits.ofBytes, Bits.wholeBytes]⟩
  rw [inflate] at h ⊢
  rcases hb : inflateBlocks (.ofLimit limit) (.ofBytes offset b) #[] with ⟨out₁, halt | bits⟩
  · rw [hb] at h
    cases h
  · rw [hb] at h
    cases h
    obtain ⟨bits', hb', hbits⟩ := inflateBlocks_before hstart hb hlimit
    rw [hb']
    show (out, Except.ok bits'.wholeBytes) = (out, Except.ok (bits.wholeBytes ++ more))
    rw [hbits.bytes]

end Inflating

end Deflate

/-! ### Members -/

theorem conclude_eq_ok_iff {limit : Nat} {out : Array UInt8} {ending : Except Halt Bytes}
    {accepted : Bytes → Bool} {data : Bytes} : conclude limit out ending accepted = .ok data ↔
      ∃ rest, ending = .ok rest ∧ out.size ≤ limit ∧ accepted rest = true ∧ out.toList = data := by
  constructor
  · intro h
    unfold conclude at h
    split at h
    · cases h
    · cases h
    · rename_i rest
      split_ifs at h with hlimit haccepted
      cases h
      exact ⟨rest, rfl, Nat.not_lt.1 hlimit, haccepted, rfl⟩
  · rintro ⟨rest, rfl, hlimit, haccepted, rfl⟩
    simp [conclude, Nat.not_lt.2 hlimit, haccepted]

namespace Gzip

variable {b rest : Bytes}

/-- The bytes up to the first zero, as far as a text in a header can reach. -/
theorem takeWhile_take_append {text : Bytes} {x : UInt8} (hne : ∀ c ∈ text, c ≠ 0)
    (hlength : text.length ≤ maxText) (rest : Bytes) :
    ((text ++ x :: rest).take (maxText + 1)).takeWhile (· ≠ 0) =
      text ++ (x :: rest.take (maxText - text.length)).takeWhile (· ≠ 0) := by
  rw [List.take_append, List.take_of_length_le (by omega), Nat.sub_add_comm hlength,
    List.take_succ_cons, List.takeWhile_append_of_pos (by simpa using hne)]

/-- A text in a header goes on to its first zero. -/
theorem skipText_eq_some_iff : skipText b = some rest ↔
    ∃ text, text.length ≤ maxText ∧ (∀ c ∈ text, c ≠ 0) ∧ b = text ++ 0 :: rest := by
  constructor
  · intro h
    rw [skipText] at h
    split_ifs at h with hlong
    have hprefix := (List.takeWhile_prefix (· ≠ 0)).trans (List.take_prefix (maxText + 1) b)
    have hne (c : UInt8) (hc : c ∈ (b.take (maxText + 1)).takeWhile (· ≠ 0)) : c ≠ 0 := by
      simpa using List.mem_takeWhile_imp hc
    generalize htext : (b.take (maxText + 1)).takeWhile (· ≠ 0) = text at *
    rcases hdrop : b.drop text.length with _ | ⟨x, behind⟩ <;> rw [hdrop] at h <;> cases h
    obtain ⟨_, rfl⟩ := hprefix
    rw [List.drop_left] at hdrop
    subst hdrop
    rw [takeWhile_take_append hne (Nat.not_lt.1 hlong)] at htext
    -- a byte other than zero would go on with the text
    by_cases hx : x = 0
    · exact ⟨text, Nat.not_lt.1 hlong, hne, by rw [hx]⟩
    · simp [hx] at htext
  · rintro ⟨text, hlength, hne, rfl⟩
    rw [skipText, takeWhile_take_append hne hlength]
    simp [Nat.not_lt.2 hlength]

/-- Whether a part of a header is passed over in the same way where more bytes follow. -/
def SkipsAlike (skip : Bytes → Option Bytes) : Prop :=
  ∀ b rest more, skip b = some rest → skip (b ++ more) = some (rest ++ more)

theorem skipsAlike_skipText : SkipsAlike skipText := by
  intro b rest more h
  obtain ⟨text, hlength, hne, rfl⟩ := skipText_eq_some_iff.1 h
  exact skipText_eq_some_iff.2 ⟨text, hlength, hne, by simp⟩

theorem skipsAlike_skipExtra : SkipsAlike skipExtra := by
  intro b rest more h
  simp only [skipExtra, Option.bind_eq_bind, Option.bind_eq_some_iff] at h ⊢
  obtain ⟨⟨length, rest₁⟩, hl, ⟨⟨extra, rest₂⟩, he, hr⟩⟩ := h
  cases hr
  exact ⟨_, Bytes.split?_append more hl, _, Bytes.split?_append more he, rfl⟩

theorem skipsAlike_skipCheck (header : Bytes) : SkipsAlike (skipCheck header) := by
  intro b rest more h
  simp only [skipCheck, Option.bind_eq_bind, Option.bind_eq_some_iff] at h ⊢
  obtain ⟨⟨check, rest₁⟩, hc, h⟩ := h
  split_ifs at h with hfits
  cases h
  exact ⟨_, Bytes.split?_append more hc, if_pos hfits⟩

theorem SkipsAlike.skipIf {skip : Bytes → Option Bytes} (h : SkipsAlike skip)
    (flags flag : UInt8) : SkipsAlike (skipIf flags flag skip) := by
  intro b rest more hr
  unfold Gzip.skipIf at hr ⊢
  split_ifs at hr ⊢
  · cases hr
    rfl
  · exact h b rest more hr

/-- The stream of a member starts where it did. -/
theorem stream?_append {member stream : Bytes} (more : Bytes) (h : stream? member = some stream) :
    stream? (member ++ more) = some (stream ++ more) := by
  simp only [stream?, Option.bind_eq_bind, Option.bind_eq_some_iff] at h ⊢
  obtain ⟨⟨fixed, rest⟩, hf, h⟩ := h
  dsimp only at h
  split_ifs at h with hfixed
  simp only [Option.bind_eq_some_iff] at h
  obtain ⟨rest₁, h₁, rest₂, h₂, rest₃, h₃, h₄⟩ := h
  have hextra := skipsAlike_skipExtra.skipIf _ _ _ _ more h₁
  have hname := skipsAlike_skipText.skipIf _ _ _ _ more h₂
  have hcomment := skipsAlike_skipText.skipIf _ _ _ _ more h₃
  have hheader : (member ++ more).take ((member ++ more).length - (rest₃ ++ more).length) =
      member.take (member.length - rest₃.length) := by
    rw [List.length_append, List.length_append, Nat.add_sub_add_right,
      List.take_append_of_le_length (Nat.sub_le ..)]
  refine ⟨_, Bytes.split?_append more hf, ?_⟩
  dsimp only
  rw [if_neg hfixed, hextra, Option.bind_some, hname, Option.bind_some, hcomment,
    Option.bind_some, hheader]
  exact (skipsAlike_skipCheck _).skipIf _ _ _ _ more h₄

theorem trailerFits_append {out : Array UInt8} {rest : Bytes} (more : Bytes)
    (h : trailerFits out rest = true) : trailerFits out (rest ++ more) = true := by
  unfold trailerFits at h ⊢
  split at h
  · cases h
  · rename_i hs
    rw [Bytes.split?_append more hs]
    exact h

theorem decode_append {limit : Nat} {member data : Bytes} (more : Bytes)
    (h : decode limit member = .ok data) : decode limit (member ++ more) = .ok data := by
  unfold decode at h ⊢
  rcases hs : stream? member with _ | stream <;> rw [hs] at h
  · cases h
  rw [stream?_append more hs]
  dsimp only at h ⊢
  obtain ⟨rest, hinflate, hlimit, hfits, hdata⟩ := conclude_eq_ok_iff.1 h
  have hoffset : (member ++ more).length - (stream ++ more).length =
      member.length - stream.length := by
    rw [List.length_append, List.length_append, Nat.add_sub_add_right]
  rw [hoffset, Deflate.inflate_append more (Prod.ext rfl hinflate) hlimit]
  exact conclude_eq_ok_iff.2 ⟨rest ++ more, rfl, hlimit, trailerFits_append more hfits, hdata⟩

end Gzip

end Trawl.Compression
