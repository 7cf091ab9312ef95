import Mathlib.Tactic.SplitIfs
import Trawl.Content.Declared

/-!
# Output within two limits

A limit shows only in output beyond it: inflating gives the same under every limit that the output
keeps to (`inflate_eq`), and so does every decoder that tries one form only. What is called deflated
is tried in two forms, and there a limit can show in the first one though it is the second that
counts (`Compressed.decode_of_le`).
-/

namespace Trawl.Compression

namespace Deflate

variable {codes : Codes} {bounds bounds' : Bounds} {bits : Bits} {out : Array UInt8}

theorem size_repeatBack (distance : Nat) : ∀ (length : Nat) (out : Array UInt8),
    (repeatBack distance length out).size = out.size + length
  | 0, out => rfl
  | length + 1, out => by
    rw [repeatBack, size_repeatBack distance length, Array.size_push]
    omega

theorem inflateSymbols_def : inflateSymbols codes bounds bits out =
    match codes.symbols.read bits with
    | .error halt => (out, .error halt)
    | .ok (.literal octet, bits) =>
      if out.size < bounds.room then
        inflateSymbols codes bounds (bounds.settle (out.size + 1) bits) (out.push octet)
      else (out, .error .exhausted)
    | .ok (.endOfBlock, bits) => (out, .ok bits)
    | .ok (.length lengths, bits) =>
      match readReference codes lengths bits with
      | .error halt => (out, .error halt)
      | .ok (reference, bits) =>
        let free := bounds.room - out.size
        let more := repeatBack reference.distance (min reference.length free) out
        if free < reference.length then (more, .error .exhausted)
        else inflateSymbols codes bounds (bounds.settle more.size bits) more
    | .ok (.unassigned, _) => (out, .error .fault) := by
  rw [inflateSymbols.eq_def]
  split <;> rename_i hs <;> simp only [hs]
  · rw [Array.size_push]
  · split <;> rename_i hr <;> simp only [hr]

theorem inflateBlocks_def : inflateBlocks bounds bits out =
    match bits.read 1 with
    | .error halt => (out, .error halt)
    | .ok (last, bits) =>
      match bits.read 2 with
      | .error halt => (out, .error halt)
      | .ok (kind, bits) =>
        match inflateBlock kind bounds bits out with
        | (out, .error halt) => (out, .error halt)
        | (out, .ok bits) =>
          if last = 1 then (out, .ok bits) else inflateBlocks bounds bits out := by
  rw [inflateBlocks.eq_def]
  split <;> rename_i hl <;> simp only [hl]
  split <;> rename_i hk <;> simp only [hk]
  split <;> rename_i hb <;> simp only [hb]

/-! ### Output only grows -/

theorem size_le_inflateSymbols (codes : Codes) (bounds : Bounds) (bits : Bits) (out : Array UInt8) :
    out.size ≤ (inflateSymbols codes bounds bits out).1.size := by
  fun_induction inflateSymbols codes bounds bits out with
  | case1 => exact Nat.le_refl _
  | case2 bits out octet bits₁ hs _ out₁ ih =>
    have hpush : out₁.size = out.size + 1 := Array.size_push ..
    omega
  | case3 => exact Nat.le_refl _
  | case4 => exact Nat.le_refl _
  | case5 => exact Nat.le_refl _
  | case6 bits out lengths bits₁ hs reference bits₂ hr free out₁ _ =>
    have hmore : out₁.size = _ := size_repeatBack ..
    show out.size ≤ out₁.size
    omega
  | case7 bits out lengths bits₁ hs reference bits₂ hr free out₁ _ ih =>
    have hmore : out₁.size = _ := size_repeatBack ..
    omega
  | case8 => exact Nat.le_refl _

theorem size_le_inflateOctets (bounds : Bounds) : ∀ (count : Nat) (bits : Bits)
    (out : Array UInt8), out.size ≤ (inflateOctets bounds count bits out).1.size
  | 0, _, _ => Nat.le_refl _
  | count + 1, bits, out => by
    rw [inflateOctets]
    split_ifs
    · split
      · exact Nat.le_refl _
      · rename_i value bits _
        have := size_le_inflateOctets bounds count (bounds.settle (out.size + 1) bits)
          (out.push (UInt8.ofNat value))
        rw [Array.size_push] at this
        simp only [Array.size_push]
        omega
    · exact Nat.le_refl _

theorem size_le_inflateStored (bounds : Bounds) (bits : Bits) (out : Array UInt8) :
    out.size ≤ (inflateStored bounds bits out).1.size := by
  unfold inflateStored
  split
  · exact Nat.le_refl _
  · dsimp only
    split_ifs
    · exact Nat.le_refl _
    · exact size_le_inflateOctets ..

theorem size_le_inflateBlock (kind : Nat) (bounds : Bounds) (bits : Bits) (out : Array UInt8) :
    out.size ≤ (inflateBlock kind bounds bits out).1.size := by
  unfold inflateBlock
  split_ifs
  · exact size_le_inflateStored ..
  · exact size_le_inflateSymbols ..
  · split
    · exact Nat.le_refl _
    · exact size_le_inflateSymbols ..
  · exact Nat.le_refl _

theorem size_le_inflateBlocks (bounds : Bounds) (bits : Bits) (out : Array UInt8) :
    out.size ≤ (inflateBlocks bounds bits out).1.size := by
  fun_induction inflateBlocks bounds bits out with
  | case1 => exact Nat.le_refl _
  | case2 => exact Nat.le_refl _
  | case3 bits out last bits₁ hl kind bits₂ hk out₁ halt hb =>
    simpa [hb] using size_le_inflateBlock kind bounds bits₂ out
  | case4 bits out bits₁ kind bits₂ hk out₁ bits₃ hb hl =>
    simpa [hb] using size_le_inflateBlock kind bounds bits₂ out
  | case5 bits out last bits₁ hl kind bits₂ hk out₁ bits₃ hb _ ih =>
    have hblock := size_le_inflateBlock kind bounds bits₂ out
    rw [hb] at hblock
    exact Nat.le_trans hblock ih

/-! ### Two limits -/

/-- Output that keeps to two limits, each of which leaves room for a byte more. -/
structure Bounds.Both (bounds bounds' : Bounds) (size : Nat) : Prop where
  room : bounds.limit < bounds.room
  room' : bounds'.limit < bounds'.room
  limit : size ≤ bounds.limit
  limit' : size ≤ bounds'.limit

theorem Bounds.Both.mono {size smaller : Nat} (h : bounds.Both bounds' size)
    (hle : smaller ≤ size) : bounds.Both bounds' smaller :=
  { h with limit := Nat.le_trans hle h.limit, limit' := Nat.le_trans hle h.limit' }

theorem Bounds.settle_of_le {produced : Nat} (h : produced ≤ bounds.limit) (bits : Bits) :
    bounds.settle produced bits = bits :=
  if_neg (Nat.not_lt.2 h)

theorem inflateSymbols_eq (h : bounds.Both bounds' (inflateSymbols codes bounds bits out).1.size) :
    inflateSymbols codes bounds' bits out = inflateSymbols codes bounds bits out := by
  fun_induction inflateSymbols codes bounds bits out with
  | case1 bits out halt hs => simp only [inflateSymbols_def, hs]
  | case2 bits out octet bits₁ hs _ out₁ ih =>
    have hout := h.mono (size_le_inflateSymbols _ _ _ out₁)
    have hpush : out₁.size = out.size + 1 := Array.size_push ..
    have hroom' := hout.room'
    have hlimit' := hout.limit'
    rw [Bounds.settle_of_le hout.limit] at ih h ⊢
    rw [inflateSymbols_def, hs]
    dsimp only
    rw [if_pos (by omega), Bounds.settle_of_le (hpush ▸ hout.limit')]
    exact ih h
  | case3 bits out octet bits₁ hs hfull =>
    -- There is no room, so that the output is beyond the limit already.
    have hroom := h.room
    have hlimit := h.limit
    dsimp only at hlimit
    omega
  | case4 bits out bits₁ hs => simp only [inflateSymbols_def, hs]
  | case5 bits out lengths bits₁ hs halt hr => simp only [inflateSymbols_def, hs, hr]
  | case6 bits out lengths bits₁ hs reference bits₂ hr free out₁ hfree =>
    have hmore : out₁.size = _ := size_repeatBack ..
    have hroom := h.room
    have hlimit : out₁.size ≤ bounds.limit := h.limit
    omega
  | case7 bits out lengths bits₁ hs reference bits₂ hr free out₁ hfree ih =>
    have hout := h.mono (size_le_inflateSymbols _ _ _ out₁)
    have hmore : out₁.size = _ := size_repeatBack ..
    have hroom' := hout.room'
    have hlimit' := hout.limit'
    have hmin : min reference.length free = min reference.length (bounds'.room - out.size) := by
      omega
    rw [Bounds.settle_of_le hout.limit] at ih h ⊢
    rw [inflateSymbols_def, hs]
    dsimp only
    rw [hr]
    dsimp only
    rw [← hmin, if_neg (by omega), Bounds.settle_of_le hout.limit']
    exact ih h
  | case8 bits out bits₁ hs => simp only [inflateSymbols_def, hs]

theorem inflateOctets_eq : ∀ {count : Nat} {bits : Bits} {out : Array UInt8},
    bounds.Both bounds' (inflateOctets bounds count bits out).1.size →
      inflateOctets bounds' count bits out = inflateOctets bounds count bits out
  | 0, _, _, _ => rfl
  | count + 1, bits, out, h => by
    have hout := h.mono (size_le_inflateOctets bounds (count + 1) bits out)
    have hroom : out.size < bounds.room := Nat.lt_of_le_of_lt hout.limit hout.room
    have hroom' : out.size < bounds'.room := Nat.lt_of_le_of_lt hout.limit' hout.room'
    rw [inflateOctets, if_pos hroom] at h
    rw [inflateOctets, inflateOctets, if_pos hroom, if_pos hroom']
    cases hr : bits.read 8 with
    | error halt => rfl
    | ok next =>
      obtain ⟨value, bits₁⟩ := next
      rw [hr] at h
      dsimp only at h ⊢
      have hpush := h.mono (size_le_inflateOctets bounds count _ _)
      rw [Bounds.settle_of_le hpush.limit] at h ⊢
      rw [Bounds.settle_of_le hpush.limit']
      exact inflateOctets_eq h

theorem inflateStored_eq (h : bounds.Both bounds' (inflateStored bounds bits out).1.size) :
    inflateStored bounds' bits out = inflateStored bounds bits out := by
  unfold inflateStored at h ⊢
  cases hr : bits.align.read 32 with
  | error halt => rfl
  | ok next =>
    rw [hr] at h
    dsimp only at h ⊢
    split_ifs at h ⊢
    · rfl
    · exact inflateOctets_eq h

theorem inflateBlock_eq {kind : Nat}
    (h : bounds.Both bounds' (inflateBlock kind bounds bits out).1.size) :
    inflateBlock kind bounds' bits out = inflateBlock kind bounds bits out := by
  unfold inflateBlock at h ⊢
  split_ifs at h ⊢
  · exact inflateStored_eq h
  · exact inflateSymbols_eq h
  · cases hr : readCodes bits with
    | error halt => rfl
    | ok next =>
      rw [hr] at h
      exact inflateSymbols_eq h
  · rfl

theorem inflateBlocks_eq (h : bounds.Both bounds' (inflateBlocks bounds bits out).1.size) :
    inflateBlocks bounds' bits out = inflateBlocks bounds bits out := by
  fun_induction inflateBlocks bounds bits out with
  | case1 bits out halt hl => simp only [inflateBlocks_def, hl]
  | case2 bits out last bits₁ hl halt hk => simp only [inflateBlocks_def, hl, hk]
  | case3 bits out last bits₁ hl kind bits₂ hk out₁ halt hb =>
    have hblock : inflateBlock kind bounds' bits₂ out = _ := inflateBlock_eq (by rwa [hb])
    simp only [inflateBlocks_def, hl, hk, hblock, hb]
  | case4 bits out bits₁ kind bits₂ hk out₁ bits₃ hb hl =>
    have hblock : inflateBlock kind bounds' bits₂ out = _ := inflateBlock_eq (by rwa [hb])
    rw [inflateBlocks_def]
    simp only [hl, hk, hblock, hb]
    rw [if_pos trivial]
  | case5 bits out last bits₁ hl kind bits₂ hk out₁ bits₃ hb hlast ih =>
    have hout := h.mono (size_le_inflateBlocks _ _ out₁)
    have hblock : inflateBlock kind bounds' bits₂ out = _ := inflateBlock_eq (by rwa [hb])
    rw [inflateBlocks_def]
    simp only [hl, hk, hblock, hb]
    rw [if_neg hlast]
    exact ih h

theorem limit_lt_room (limit : Nat) :
    (Bounds.ofLimit limit).limit < (Bounds.ofLimit limit).room := by
  have := Nat.div_add_mod' limit windowSize
  have := Nat.mod_lt limit (show 0 < windowSize by decide)
  simp only [Bounds.ofLimit, Nat.add_mul]
  omega

/-- Inflating gives the same under every limit that the output keeps to. -/
theorem inflate_eq {limit limit' offset : Nat} {b : Bytes}
    (h : (inflate limit offset b).1.size ≤ limit) (h' : (inflate limit offset b).1.size ≤ limit') :
    inflate limit' offset b = inflate limit offset b := by
  have hblocks : inflateBlocks (.ofLimit limit') (.ofBytes offset b) #[] =
      inflateBlocks (.ofLimit limit) (.ofBytes offset b) #[] :=
    inflateBlocks_eq ⟨limit_lt_room limit, limit_lt_room limit', h, h'⟩
  rw [inflate, inflate, hblocks]

end Deflate

/-! ### Decoders -/

theorem toList_of_conclude {limit : Nat} {out : Array UInt8} {ending : Except Halt Bytes}
    {accepted : Bytes → Bool} {data : Bytes} (h : conclude limit out ending accepted = .ok data) :
    out.toList = data := by
  unfold conclude at h
  split at h
  · cases h
  · cases h
  · split_ifs at h
    exact Except.ok.inj h

theorem conclude_eq {limit limit' : Nat} {out : Array UInt8} (ending : Except Halt Bytes)
    (accepted : Bytes → Bool) (h : out.size ≤ limit) (h' : out.size ≤ limit') :
    conclude limit' out ending accepted = conclude limit out ending accepted := by
  simp only [conclude, if_neg (Nat.not_lt.2 h), if_neg (Nat.not_lt.2 h')]

section Limits

variable {limit limit' : Nat} {b data : Bytes}

/-- Every decoder that inflates once takes its limit in this way. -/
theorem conclude_inflate_of_le {offset : Nat}
    (ending : Array UInt8 × Except Halt Bytes → Except Halt Bytes)
    (accepted : Array UInt8 → Bytes → Bool)
    (h : conclude limit (Deflate.inflate limit offset b).1
      (ending (Deflate.inflate limit offset b)) (accepted (Deflate.inflate limit offset b).1) =
        .ok data)
    (hle : data.length ≤ limit') :
    conclude limit' (Deflate.inflate limit' offset b).1
      (ending (Deflate.inflate limit' offset b)) (accepted (Deflate.inflate limit' offset b).1) =
        .ok data := by
  have hsize : (Deflate.inflate limit offset b).1.size = data.length := by
    rw [← toList_of_conclude h, Array.length_toList]
  have hlimit : (Deflate.inflate limit offset b).1.size ≤ limit := by
    rw [hsize]
    exact length_conclude h
  have hlimit' : (Deflate.inflate limit offset b).1.size ≤ limit' := by
    rw [hsize]
    exact hle
  rw [Deflate.inflate_eq hlimit hlimit', conclude_eq _ _ hlimit hlimit']
  exact h

theorem inflateBare_of_le (h : inflateBare limit b = .ok data) (hle : data.length ≤ limit') :
    inflateBare limit' b = .ok data :=
  conclude_inflate_of_le (·.2) (fun _ _ => true) h hle

theorem inflateWrapped_of_le (h : inflateWrapped limit b = .ok data) (hle : data.length ≤ limit') :
    inflateWrapped limit' b = .ok data := by
  unfold inflateWrapped at h ⊢
  split at h
  · split_ifs at h with hheader
    rw [if_pos hheader]
    exact conclude_inflate_of_le (fun r => r.2.bind (afterSum r.1)) (fun _ _ => true) h hle
  · cases h

theorem Gzip.decode_of_le (h : Gzip.decode limit b = .ok data) (hle : data.length ≤ limit') :
    Gzip.decode limit' b = .ok data := by
  unfold Gzip.decode at h ⊢
  split at h
  · cases h
  · exact conclude_inflate_of_le (·.2) trailerFits h hle

end Limits

end Trawl.Compression

namespace Trawl.Content.Compressed

/-- Under a lower limit that the output keeps to, decoding gives the same; unless the data is said
to be deflated and is no zlib stream, but gives more than that as one before it fails. -/
theorem decode_of_le {limit limit' : Nat} {b data : Bytes} {encoding : Compressed}
    (h : encoding.decode limit b = .ok data) (hle : data.length ≤ limit')
    (hlimit : limit' ≤ limit) :
    encoding.decode limit' b = .ok data ∨
      encoding = .deflate ∧ Compression.inflateWrapped limit b = .error .corrupt ∧
        encoding.decode limit' b = .error .tooLarge := by
  cases encoding with
  | gzip => exact .inl (Compression.Gzip.decode_of_le h hle)
  | deflate =>
    unfold decode at h ⊢
    dsimp only at h ⊢
    cases hw : Compression.inflateWrapped limit b with
    | ok wrapped =>
      rw [hw] at h
      cases h
      rw [Compression.inflateWrapped_of_le hw hle]
      exact .inl rfl
    | error failure =>
      rw [hw] at h
      cases failure with
      | tooLarge => cases h
      | corrupt =>
        cases hw' : Compression.inflateWrapped limit' b with
        | ok wrapped =>
          -- What keeps to the lower limit would have come out under the higher one.
          have hlength := Nat.le_trans (Compression.length_inflateWrapped hw') hlimit
          rw [Compression.inflateWrapped_of_le hw' hlength] at hw
          cases hw
        | error failure' =>
          cases failure' with
          | tooLarge => exact .inr ⟨rfl, rfl, rfl⟩
          | corrupt => exact .inl (Compression.inflateBare_of_le h hle)

end Trawl.Content.Compressed
