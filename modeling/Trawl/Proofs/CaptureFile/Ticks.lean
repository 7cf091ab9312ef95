import Trawl.Proofs.CaptureFile.Captured
import Trawl.Proofs.Double

/-!
# Ticks and the time of a packet

A packet states its time in ticks, and how many of them make a second is among the options of its
interface: a power of ten or of two, and a million where nothing is stated. The options are never
looked at, and all ticks are taken for microseconds. The time of a packet is a double that is as
close to that as its rounding allows (`Timestamp.exists_seconds`), and two numbers of ticks per
second are never that close to each other (`ticksPerSecondOf_apart`); so the time is right only
where a second does have a million ticks (`ticks_taken_for_microseconds`).
-/

namespace Trawl

namespace Timestamp

/-- The time in seconds, unless its double is infinite or no number. -/
def seconds? (t : Timestamp) : Option ℚ :=
  number? t.toFloat.toModel.unpack

/-- Whether a time is so many seconds, up to the rounding to a double: that of the ticks, of the
length of a tick and of their product. -/
def Denotes (t : Timestamp) (x : ℚ) : Prop :=
  ∃ s, t.seconds? = some s ∧ Approximates (1 / 2 ^ 50) s x

/-- The double nearest to a millionth. -/
def millionth : NormalDouble where
  mantissa := 4722366482869645
  exponent := -72
  le_mantissa := by decide
  mantissa_lt := by decide
  le_exponent := by decide
  exponent_le := by decide

theorem unpack_seconds_micro : Resolution.micro.seconds.toModel.unpack = millionth.unpacked :=
  rfl

theorem approximates_millionth : Approximates (1 / 2 ^ 52) millionth.number (1 / 1000000) := by
  rw [Approximates, NormalDouble.number, abs_le]
  norm_num [millionth]

theorem exists_double {ticks : UInt64} (h : ticks ≠ 0) : ∃ d : NormalDouble,
    (counted 0 ticks .micro).toFloat.toModel.unpack = d.unpacked ∧
      Approximates (1 / 2 ^ 50) d.number (ticks.toNat / 1000000) := by
  obtain ⟨n, hn, hrange, hcount⟩ := exists_toFloat h
  have hexponent : millionth.exponent = -72 := rfl
  obtain ⟨d, hd, hproduct⟩ := exists_mul hn unpack_seconds_micro (by omega) (by omega)
  refine ⟨d, unpack_zero_add hd, ?_⟩
  have hfactors := hcount.mul approximates_millionth millionth.number_nonneg
    (Nat.cast_nonneg _) (by norm_num)
  have happrox := hproduct.trans hfactors (by norm_num)
  rw [mul_one_div] at happrox
  exact happrox.mono (by positivity) (by norm_num)

/-- A count of microseconds as a time. -/
theorem exists_seconds (ticks : UInt64) : ∃ s, (counted 0 ticks .micro).seconds? = some s ∧
    Approximates (1 / 2 ^ 50) s (ticks.toNat / 1000000) := by
  by_cases h : ticks = 0
  · subst h
    exact ⟨0, rfl, by norm_num [Approximates]⟩
  · obtain ⟨d, hd, happrox⟩ := exists_double h
    exact ⟨d.number, by rw [seconds?, hd, d.number?_unpacked], happrox⟩

end Timestamp

namespace CaptureFile

/-! ## Ticks per second -/

/-- The option that states the ticks of a second. -/
def resolutionKind : Nat := 9

namespace Block

/-- The value of the first option of a kind. An option is its kind, the length of its value and the
value, filled up to a multiple of four; the kind zero ends them. -/
def option? (order : ByteOrder) (kind : Nat) (options : Bytes) : Option Bytes :=
  match _hs : options.split? 4 with
  | none => none
  | some (start, rest) =>
    let found := order.read (start.field 0 2)
    let length := order.read (start.field 2 2)
    match _hr : rest.split? (aligned length) with
    | none => none
    | some (value, rest) =>
      if found = 0 then none
      else if found = kind then some (value.take length)
      else option? order kind rest
termination_by options.length
decreasing_by
  have hs := Bytes.split?_eq_some _hs
  have hr := Bytes.split?_eq_some _hr
  rw [hs.1, hr.1]
  simp only [List.length_append]
  omega

/-- The options that a block describes an interface with. -/
def options? : Block → Option Bytes
  | .interface _ _ options => some options
  | _ => none

/-- The options of the interfaces of the current section. -/
def optionsAfter (before : List Block) : List Bytes :=
  (currentSection before).filterMap options?

/-- The byte order behind some blocks. -/
def orderBehind (before : List Block) : ByteOrder :=
  before.foldl orderAfter .little

end Block

/-- The ticks of a second as an octet states them: a power of ten or, where its highest bit is set,
of two. -/
def ticksPerSecondOf (octet : UInt8) : Nat :=
  if octet < 128 then 10 ^ octet.toNat else 2 ^ (octet.toNat - 128)

/-- The ticks of a second on an interface with these options, a million where they do not say. -/
def ticksPerSecond (order : ByteOrder) (options : Bytes) : Nat :=
  match Block.option? order resolutionKind options with
  | some (octet :: _) => ticksPerSecondOf octet
  | _ => 1000000

theorem exists_ticksPerSecondOf (order : ByteOrder) (options : Bytes) :
    ∃ octet, ticksPerSecond order options = ticksPerSecondOf octet := by
  unfold ticksPerSecond
  split
  · exact ⟨_, rfl⟩
  · exact ⟨6, by decide⟩

theorem ticksPerSecondOf_pos (octet : UInt8) : 0 < ticksPerSecondOf octet := by
  unfold ticksPerSecondOf
  split <;> positivity

theorem log2_ten_pow : ∀ a < 39, 128 * 10 ^ a ≤ 127 * 2 ^ ((10 ^ a).log2 + 1) ∧
    (10 ^ a = 2 ^ (10 ^ a).log2 ∨ 128 * 2 ^ (10 ^ a).log2 ≤ 127 * 10 ^ a) := by
  decide +kernel

/-- No power of two comes close to a power of ten, up to the largest that an octet states. -/
theorem two_pow_apart_ten_pow {a b : Nat} (hb : b < 128) (h : 10 ^ a ≠ 2 ^ b) :
    128 * 10 ^ a ≤ 127 * 2 ^ b ∨ 128 * 2 ^ b ≤ 127 * 10 ^ a := by
  rcases Nat.lt_or_ge a 39 with ha | ha
  · obtain ⟨habove, hbelow⟩ := log2_ten_pow a ha
    rcases Nat.lt_trichotomy (10 ^ a).log2 b with hlog | rfl | hlog
    · have := Nat.pow_le_pow_right two_pos (Nat.succ_le_of_lt hlog)
      exact .inl (by omega)
    · exact .inr (hbelow.resolve_left h)
    · have := Nat.pow_le_pow_right two_pos (Nat.succ_le_of_lt hlog)
      rw [Nat.pow_succ] at this
      have := Nat.log2_self_le (n := 10 ^ a) (by positivity)
      exact .inr (by omega)
  · have htwo : 2 ^ b ≤ 2 ^ 127 := Nat.pow_le_pow_right two_pos (by omega)
    have hten : 10 ^ 39 ≤ 10 ^ a := Nat.pow_le_pow_right (by omega) ha
    exact .inr (by omega)

theorem pow_apart_pow {base a b : Nat} (hbase : 2 ≤ base) (h : base ^ a ≠ base ^ b) :
    128 * base ^ a ≤ 127 * base ^ b ∨ 128 * base ^ b ≤ 127 * base ^ a := by
  have hstep : ∀ {a b : Nat}, a < b → 128 * base ^ a ≤ 127 * base ^ b := by
    intro a b hab
    calc 128 * base ^ a ≤ 127 * (base ^ a * 2) := by omega
      _ ≤ 127 * base ^ (a + 1) := Nat.mul_le_mul_left _ (Nat.mul_le_mul_left _ hbase)
      _ ≤ 127 * base ^ b := Nat.mul_le_mul_left _ (Nat.pow_le_pow_right (by omega) hab)
  rcases Nat.lt_trichotomy a b with hab | rfl | hab
  · exact .inl (hstep hab)
  · exact absurd rfl h
  · exact .inr (hstep hab)

/-- Different numbers of ticks per second differ by more than any rounding. -/
theorem ticksPerSecondOf_apart {v w : UInt8} (h : ticksPerSecondOf v ≠ ticksPerSecondOf w) :
    128 * ticksPerSecondOf v ≤ 127 * ticksPerSecondOf w ∨
      128 * ticksPerSecondOf w ≤ 127 * ticksPerSecondOf v := by
  have hv := v.toNat_lt
  have hw := w.toNat_lt
  unfold ticksPerSecondOf at *
  split_ifs at h ⊢
  · exact pow_apart_pow (by omega) h
  · exact two_pow_apart_ten_pow (by omega) h
  · exact (two_pow_apart_ten_pow (by omega) h.symm).symm
  · exact pow_apart_pow (by omega) h

/-! ## Packets -/

/-- A packet with a time, behind the blocks that describe its interface. -/
structure TimedPacket (before : List Block) where
  interface : UInt32
  options : Bytes
  described : (Block.optionsAfter before)[interface.toNat]? = some options
  ticks : UInt64
  capturedLength : UInt32
  wireLength : UInt32
  data : Bytes

namespace TimedPacket

variable {before before' : List Block} (p : TimedPacket before) (q : TimedPacket before')

def block : Block :=
  .enhancedPacket p.interface p.ticks p.capturedLength p.wireLength p.data

/-- How many ticks make a second on the interface of the packet. -/
def perSecond : Nat :=
  ticksPerSecond (Block.orderBehind before) p.options

/-- When the packet was captured, in seconds. -/
def instant : ℚ :=
  p.ticks.toNat / p.perSecond

def time : Timestamp :=
  .counted 0 p.ticks .micro

def record : Record where
  time := some p.time
  linkType := Block.linkTypeAfter before p.interface.toNat
  data := p.data.take p.capturedLength.toNat
  wireLength := p.wireLength
  interface := p.interface

theorem recordAfter_block : p.block.recordAfter before = some p.record :=
  rfl

theorem exists_perSecond : ∃ octet, p.perSecond = ticksPerSecondOf octet :=
  exists_ticksPerSecondOf _ _

theorem perSecond_pos : (0 : ℚ) < p.perSecond := by
  obtain ⟨octet, hoctet⟩ := p.exists_perSecond
  rw [hoctet]
  exact_mod_cast ticksPerSecondOf_pos octet

theorem instant_mul_perSecond : p.instant * p.perSecond = p.ticks.toNat :=
  div_mul_cancel₀ _ p.perSecond_pos.ne'

theorem instant_pos (h : p.ticks ≠ 0) : 0 < p.instant :=
  div_pos (Nat.cast_pos.2 (Nat.pos_of_ne_zero fun hzero => h (UInt64.toNat_inj.1 hzero)))
    p.perSecond_pos

theorem instant_eq_zero (h : p.ticks = 0) : p.instant = 0 := by
  rw [instant, h, UInt64.toNat_zero, Nat.cast_zero, zero_div]

/-- Whatever the instant, the ticks are taken for microseconds. -/
theorem exists_seconds : ∃ s, p.time.seconds? = some s ∧
    Approximates (1 / 2 ^ 50) s (p.instant * p.perSecond / 1000000) := by
  rw [p.instant_mul_perSecond]
  exact Timestamp.exists_seconds p.ticks

/-- One double is not right for two numbers of ticks per second. -/
theorem ticksPerSecondOf_eq_of_both {s x : ℚ} (hx : 0 < x) {v w : UInt8}
    (h : Approximates (1 / 2 ^ 50) s (x * ticksPerSecondOf v / 1000000))
    (h' : Approximates (1 / 2 ^ 50) s (x * ticksPerSecondOf w / 1000000)) :
    ticksPerSecondOf v = ticksPerSecondOf w := by
  have hclose : ∀ {v w : UInt8}, Approximates (1 / 2 ^ 50) s (x * ticksPerSecondOf v / 1000000) →
      Approximates (1 / 2 ^ 50) s (x * ticksPerSecondOf w / 1000000) →
        127 * ticksPerSecondOf v < 128 * ticksPerSecondOf w := by
    intro v w h h'
    have hw : (0 : ℚ) < ticksPerSecondOf w := Nat.cast_pos.2 (ticksPerSecondOf_pos w)
    have hlt := h.lt_of_both h' (by positivity)
    rw [mul_div_assoc, mul_div_assoc, mul_left_comm, mul_left_comm 128] at hlt
    have hlt := lt_of_mul_lt_mul_left hlt hx.le
    rw [← mul_div_assoc, ← mul_div_assoc, div_lt_div_iff_of_pos_right (by norm_num)] at hlt
    exact_mod_cast hlt
  by_contra hne
  have hle := hclose h h'
  have hge := hclose h' h
  rcases ticksPerSecondOf_apart hne with hapart | hapart <;> omega

theorem denotes_instant_iff :
    p.time.Denotes p.instant ↔ p.ticks = 0 ∨ p.perSecond = 1000000 := by
  obtain ⟨s, hs, happrox⟩ := p.exists_seconds
  constructor
  · rintro ⟨s', hs', hright⟩
    obtain rfl := Option.some.inj (hs.symm.trans hs')
    obtain ⟨octet, hoctet⟩ := p.exists_perSecond
    have hmillion : ticksPerSecondOf 6 = 1000000 := by decide
    by_contra hnot
    obtain ⟨hticks, hsecond⟩ := not_or.1 hnot
    refine hsecond ?_
    rw [hoctet, ← hmillion]
    refine ticksPerSecondOf_eq_of_both (p.instant_pos hticks) (hoctet ▸ happrox) ?_
    rwa [hmillion, Nat.cast_ofNat, mul_div_cancel_right₀ _ (by norm_num)]
  · rintro (h | h)
    · refine ⟨s, hs, ?_⟩
      rw [p.instant_eq_zero h, zero_mul, zero_div] at happrox
      rwa [p.instant_eq_zero h]
    · refine ⟨s, hs, ?_⟩
      rwa [h, Nat.cast_ofNat, mul_div_cancel_right₀ _ (by norm_num)] at happrox

/-- Of two packets of one instant, the times are the same only if their interfaces have the same
number of ticks per second. -/
theorem time_eq_iff (h : p.instant = q.instant) :
    p.time.toFloat = q.time.toFloat ↔ p.ticks = 0 ∨ p.perSecond = q.perSecond := by
  have hticks : p.ticks.toNat = q.ticks.toNat → p.time.toFloat = q.time.toFloat := fun heq => by
    rw [time, time, UInt64.toNat_inj.1 heq]
  constructor
  · intro htime
    by_contra hnot
    obtain ⟨hticks, hsecond⟩ := not_or.1 hnot
    obtain ⟨s, hs, happrox⟩ := p.exists_seconds
    obtain ⟨s', hs', happrox'⟩ := q.exists_seconds
    have hsame : p.time.seconds? = q.time.seconds? := by
      rw [Timestamp.seconds?, Timestamp.seconds?, htime]
    obtain rfl := Option.some.inj (hs.symm.trans (hsame.trans hs'))
    obtain ⟨octet, hoctet⟩ := p.exists_perSecond
    obtain ⟨octet', hoctet'⟩ := q.exists_perSecond
    rw [hoctet, hoctet'] at hsecond
    rw [hoctet] at happrox
    rw [hoctet', ← h] at happrox'
    exact hsecond (ticksPerSecondOf_eq_of_both (p.instant_pos hticks) happrox happrox')
  · rintro (hzero | hsecond)
    · have := q.instant_mul_perSecond
      rw [← h, p.instant_eq_zero hzero, zero_mul] at this
      refine hticks ?_
      rw [hzero]
      exact_mod_cast this
    · refine hticks ?_
      have := p.instant_mul_perSecond
      rw [h, hsecond, q.instant_mul_perSecond] at this
      exact_mod_cast this.symm

end TimedPacket

/-- Where a file holds a packet with a time, its record comes behind those of the blocks before it,
with its ticks taken for microseconds. That is the instant of the packet exactly if there are no
ticks or a second has a million of them on its interface. So two packets of one instant have the
same time exactly if there are no ticks or their interfaces have the same number of them per
second. -/
theorem ticks_taken_for_microseconds {w : Window} {before after : List Block}
    (p : TimedPacket before)
    (h : (Block.layout.drain .little w).1 = before ++ p.block :: after) :
    (∃ later, (Reader.blocks .start w).records.1 = Block.records before ++ p.record :: later) ∧
      p.record.time = some p.time ∧ p.time.Denotes (p.ticks.toNat / 1000000) ∧
      (p.time.Denotes p.instant ↔ p.ticks = 0 ∨ p.perSecond = 1000000) ∧
      ∀ {before' : List Block} (q : TimedPacket before'), p.instant = q.instant →
        (p.time.toFloat = q.time.toFloat ↔ p.ticks = 0 ∨ p.perSecond = q.perSecond) := by
  refine ⟨?_, rfl, Timestamp.exists_seconds p.ticks, p.denotes_instant_iff,
    fun q => p.time_eq_iff q⟩
  obtain ⟨later, hrecords⟩ := Block.records_append_cons before p.block after
  rw [p.recordAfter_block] at hrecords
  rw [Reader.records_blocks, h, hrecords]
  exact ⟨later, rfl⟩

/-- A section with two interfaces, of which the second one states nanoseconds, and on each of them a
packet without data. -/
def sectionOfTwo : List (Piece Block) :=
  [⟨[0x0A, 0x0D, 0x0D, 0x0A, 28, 0, 0, 0, 0x4D, 0x3C, 0x2B, 0x1A, 1, 0, 0, 0,
      0xFF, 0xFF, 0xFF, 0xFF, 0xFF, 0xFF, 0xFF, 0xFF, 28, 0, 0, 0], .sectionHeader .little⟩,
    ⟨[1, 0, 0, 0, 20, 0, 0, 0, 1, 0, 0, 0, 0, 0, 0, 0, 20, 0, 0, 0], .interface 1 0 []⟩,
    ⟨[1, 0, 0, 0, 28, 0, 0, 0, 1, 0, 0, 0, 0, 0, 0, 0, 9, 0, 1, 0, 9, 0, 0, 0, 28, 0, 0, 0],
      .interface 1 0 [9, 0, 1, 0, 9, 0, 0, 0]⟩,
    ⟨[6, 0, 0, 0, 32, 0, 0, 0, 0, 0, 0, 0, 0, 0, 0, 0, 0x60, 0xE3, 0x16, 0,
      0, 0, 0, 0, 0, 0, 0, 0, 32, 0, 0, 0], .enhancedPacket 0 1500000 0 0 []⟩,
    ⟨[6, 0, 0, 0, 32, 0, 0, 0, 1, 0, 0, 0, 0, 0, 0, 0, 0, 0x2F, 0x68, 0x59,
      0, 0, 0, 0, 0, 0, 0, 0, 32, 0, 0, 0], .enhancedPacket 1 1500000000 0 0 []⟩]

def fileOfTwo : Bytes :=
  Piece.bytesOf sectionOfTwo

theorem drain_fileOfTwo : Block.layout.drain .little (.start fileOfTwo) =
    (sectionOfTwo.map Piece.value, none) := by
  have hwellFormed : Block.layout.WellFormed .little sectionOfTwo :=
    ⟨by cbv, by cbv, by cbv, by cbv, by cbv, trivial⟩
  have hdrain := Layout.drain_bytesOf (n := windowSize) hwellFormed (Nat.le_refl _)
  rw [Layout.readCount_of_lt hwellFormed (by decide), List.take_length, if_pos rfl] at hdrain
  exact hdrain

/-- The packet on the interface that states nothing, at one and a half seconds. -/
def packetUnstated : TimedPacket [.sectionHeader .little, .interface 1 0 [],
    .interface 1 0 [9, 0, 1, 0, 9, 0, 0, 0]] :=
  ⟨0, [], rfl, 1500000, 0, 0, []⟩

/-- The packet on the interface that states nanoseconds, at one and a half seconds, too. -/
def packetInNanoseconds : TimedPacket [.sectionHeader .little, .interface 1 0 [],
    .interface 1 0 [9, 0, 1, 0, 9, 0, 0, 0], packetUnstated.block] :=
  ⟨1, [9, 0, 1, 0, 9, 0, 0, 0], rfl, 1500000000, 0, 0, []⟩

theorem perSecond_packetUnstated : packetUnstated.perSecond = 1000000 := by
  cbv

theorem perSecond_packetInNanoseconds : packetInNanoseconds.perSecond = 1000000000 := by
  cbv

theorem instant_packetUnstated : packetUnstated.instant = 3 / 2 := by
  have hticks : packetUnstated.ticks.toNat = 1500000 := rfl
  rw [TimedPacket.instant, hticks, perSecond_packetUnstated]
  norm_num

/-- The packet on the first interface has the right time. -/
theorem ticks_taken_for_microseconds_unstated :
    (Block.layout.drain .little (.start fileOfTwo)).1 =
        [.sectionHeader .little, .interface 1 0 [], .interface 1 0 [9, 0, 1, 0, 9, 0, 0, 0]] ++
          packetUnstated.block :: [packetInNanoseconds.block] ∧
      packetUnstated.instant = 3 / 2 ∧ packetUnstated.time.Denotes (3 / 2) := by
  have hblocks : (Block.layout.drain .little (.start fileOfTwo)).1 =
      [.sectionHeader .little, .interface 1 0 [], .interface 1 0 [9, 0, 1, 0, 9, 0, 0, 0]] ++
        packetUnstated.block :: [packetInNanoseconds.block] := by
    rw [drain_fileOfTwo]
    rfl
  obtain ⟨-, -, -, hdenotes, -⟩ := ticks_taken_for_microseconds packetUnstated hblocks
  rw [instant_packetUnstated] at hdenotes
  exact ⟨hblocks, instant_packetUnstated, hdenotes.2 (.inr perSecond_packetUnstated)⟩

/-- Both packets were captured at one and a half seconds, but the second one has the time of 1500
seconds. -/
theorem one_instant_two_times : Reader.ofFile fileOfTwo = .ok (.blocks .start (.start fileOfTwo)) ∧
    (Reader.blocks .start (.start fileOfTwo)).records =
      ([packetUnstated.record, packetInNanoseconds.record], none) ∧
    packetUnstated.instant = 3 / 2 ∧ packetInNanoseconds.instant = 3 / 2 ∧
    packetUnstated.time.seconds? = some (3 / 2) ∧
    packetInNanoseconds.time.seconds? = some 1500 ∧
    ¬packetInNanoseconds.time.Denotes packetInNanoseconds.instant := by
  refine ⟨by cbv, ?_, instant_packetUnstated, ?_, ?_, ?_, ?_⟩
  · rw [Reader.records_blocks, drain_fileOfTwo]
    rfl
  · have hticks : packetInNanoseconds.ticks.toNat = 1500000000 := rfl
    rw [TimedPacket.instant, hticks, perSecond_packetInNanoseconds]
    norm_num
  · have hbits : packetUnstated.time.toFloat.toModel.unpack =
        .finite .positive 6755399441055744 (-52) (by decide) := rfl
    rw [Timestamp.seconds?, hbits]
    norm_num [number?, Float.Model.UnpackedFloat.Sign.apply]
  · have hbits : packetInNanoseconds.time.toFloat.toModel.unpack =
        .finite .positive 6597069766656000 (-42) (by decide) := rfl
    rw [Timestamp.seconds?, hbits]
    norm_num [number?, Float.Model.UnpackedFloat.Sign.apply]
  · rw [TimedPacket.denotes_instant_iff, perSecond_packetInNanoseconds]
    decide

end CaptureFile

end Trawl
