import Trawl.Proofs.Bytes
import Trawl.Proofs.Frame.Consistency

/-!
# Where a transport header ends

A transport layer takes what its header and the lengths in it say, and may leave bytes behind it. Of
the four protocols only UDP states a length of its own, so only there anything can be left. But the
header that is shown is as many bytes as the payload is shorter than everything, so what is left
behind the payload is counted to the header (`Frame.header_and_payload_tile_iff`).
-/

namespace Trawl

/-! ## Sizes -/

namespace LayerKind

/-- The size of a transport header in front of these bytes: TCP states it in words of four bytes, as
it may have options, and the others have eight bytes. -/
def headerSize (carried : Bytes) : LayerKind → Nat
  | .tcp => (carried.octet 12 / 16).toNat * 4
  | _ => 8

/-- How many of these bytes are header and payload: as many as UDP states, where zero stands for all
of them, and all of them elsewhere. -/
def statedSize (carried : Bytes) : LayerKind → Nat
  | .udp =>
    let size := (carried.field 4 2).bigEndian
    if size = 0 then carried.length else size
  | _ => carried.length

theorem statedSize_of_ne {kind : LayerKind} (h : kind ≠ .udp) (carried : Bytes) :
    kind.statedSize carried = carried.length := by
  cases kind with
  | udp => exact absurd rfl h
  | _ => rfl

theorem statedSize_eq_length_iff (carried : Bytes) (kind : LayerKind) :
    kind.statedSize carried = carried.length ↔ kind = .udp →
      (carried.field 4 2).bigEndian = 0 ∨ (carried.field 4 2).bigEndian = carried.length := by
  by_cases hkind : kind = .udp
  · subst hkind
    unfold statedSize
    by_cases hzero : (carried.field 4 2).bigEndian = 0
    · simp [hzero]
    · simp [hzero]
  · exact iff_of_true (statedSize_of_ne hkind carried) fun h => absurd h hkind

end LayerKind

namespace Layers

variable {carried : Bytes}

theorem headerBeside_eq {header size : Nat} (hheader : header ≤ size)
    (hsize : size ≤ carried.length) :
    headerBeside carried ((carried.take size).drop header) =
      carried.take (header + (carried.length - size)) := by
  rw [headerBeside, List.length_drop, List.length_take, Nat.min_eq_left hsize]
  congr 1
  omega

/-- A transport layer as it is cut out of the bytes that a datagram carries: its payload is what is
stated behind the header, and its header grows by what is left behind the payload. -/
structure Within (carried : Bytes) (t : Layer) : Prop where
  kind_mem : t.kind ∈ [.tcp, .udp, .icmpv4, .icmpv6]
  headerSize_le : t.kind.headerSize carried ≤ t.kind.statedSize carried
  statedSize_le : t.kind.statedSize carried ≤ carried.length
  payload_eq : t.payload =
    (carried.take (t.kind.statedSize carried)).drop (t.kind.headerSize carried)
  contents_eq : t.contents =
    carried.take (t.kind.headerSize carried + (carried.length - t.kind.statedSize carried))

/-- Header and payload as they should be: the header is all there is in front of the payload, which
follows it without a gap. -/
def Tiles (carried : Bytes) (t : Layer) : Prop :=
  t.contents = carried.take (t.kind.headerSize carried) ∧ t.contents ++ t.payload <+: carried

theorem Within.tiles_iff {t : Layer} (h : Within carried t) :
    Tiles carried t ↔ t.kind.statedSize carried = carried.length := by
  have hle := h.headerSize_le
  have hsize := h.statedSize_le
  constructor
  · rintro ⟨hcontents, -⟩
    have hlength := congrArg List.length (h.contents_eq.symm.trans hcontents)
    rw [List.length_take, List.length_take] at hlength
    omega
  · intro hall
    have hcontents : t.contents = carried.take (t.kind.headerSize carried) := by
      rw [h.contents_eq, hall, Nat.sub_self, Nat.add_zero]
    have hwhole : t.contents ++ t.payload = carried := by
      rw [hcontents, h.payload_eq, hall, List.take_length, List.take_append_drop]
    exact ⟨hcontents, [], (List.append_nil _).trans hwhole⟩

/-! ## The four protocols -/

theorem Within.of_payload {kind : LayerKind} {payload : Bytes} {peers : Option Peers}
    (hkind : kind ∈ [.tcp, .udp, .icmpv4, .icmpv6])
    (hheader : kind.headerSize carried ≤ kind.statedSize carried)
    (hsize : kind.statedSize carried ≤ carried.length)
    (hpayload : payload = (carried.take (kind.statedSize carried)).drop (kind.headerSize carried)) :
    Within carried ⟨kind, headerBeside carried payload, payload, peers⟩ where
  kind_mem := hkind
  headerSize_le := hheader
  statedSize_le := hsize
  payload_eq := hpayload
  contents_eq := by rw [hpayload, headerBeside_eq hheader hsize]

variable {t : Packet.Transport}

theorem lt_length_of_not_short {n : Nat} (h : ¬(!carried.longerThan n) = true) :
    n < carried.length := by
  simpa [Bytes.longerThan_eq] using h

theorem within_tcp (h : Packet.tcp carried = .ok t) :
    Within carried (transportLayer carried t) := by
  simp only [Packet.tcp, bind, Except.bind, pure, Except.pure, throw, throwThe,
    MonadExceptOf.throw] at h
  split at h
  · cases h
  split at h
  · cases h
  split at h
  · rename_i parts hsplit
    cases h
    obtain ⟨hheader, rfl⟩ := Bytes.eq_of_split? hsplit
    refine .of_payload (by decide) hheader (Nat.le_refl _) ?_
    rw [LayerKind.statedSize_of_ne (by decide), List.take_length]
    rfl
  · cases h

theorem within_udp (h : Packet.udp carried = .ok t) :
    Within carried (transportLayer carried t) := by
  simp only [Packet.udp, bind, Except.bind, pure, Except.pure, throw, throwThe,
    MonadExceptOf.throw] at h
  split at h
  · cases h
  rename_i hshort
  split at h
  · rename_i hzero
    cases h
    have hsize : LayerKind.udp.statedSize carried = carried.length := if_pos hzero
    refine .of_payload (by decide) (hsize ▸ lt_length_of_not_short hshort) (Nat.le_of_eq hsize) ?_
    rw [hsize, List.take_length]
    rfl
  rename_i hzero
  split at h
  · cases h
  rename_i hstated
  split at h
  · rename_i datagram _ hsplit
    cases h
    obtain ⟨hwhole, hparts⟩ := Bytes.eq_of_split? hsplit
    cases hparts
    have hsize : LayerKind.udp.statedSize carried = (carried.field 4 2).bigEndian := if_neg hzero
    refine .of_payload (by decide) (hsize ▸ Nat.not_lt.1 hstated) (hsize ▸ hwhole) ?_
    rw [hsize]
    rfl
  · cases h

/-- A message that is split after eight bytes. -/
theorem within_of_eight {kind : LayerKind} {peers : Option Peers}
    (hkind : kind ∈ [.icmpv4, .icmpv6]) (hheader : 8 ≤ carried.length) :
    Within carried ⟨kind, carried.take 8, carried.drop 8, peers⟩ := by
  obtain rfl | rfl : kind = .icmpv4 ∨ kind = .icmpv6 := by simpa using hkind
  all_goals
    refine ⟨by simp, hheader, Nat.le_refl _, ?_, ?_⟩
    · simp [LayerKind.statedSize, LayerKind.headerSize]
    · simp [LayerKind.statedSize, LayerKind.headerSize]

theorem within_icmpv4 (h : Packet.icmpv4 carried = .ok t) :
    Within carried (transportLayer carried t) := by
  simp only [Packet.icmpv4] at h
  split at h
  · cases h
  rename_i hshort
  split at h
  · cases h
  cases h
  exact within_of_eight (by decide) (lt_length_of_not_short hshort)

theorem within_icmpv6 (h : Packet.icmpv6 carried = .ok t) :
    Within carried (transportLayer carried t) := by
  simp only [Packet.icmpv6] at h
  split at h
  · cases h
  rename_i hshort
  cases h
  exact within_of_eight (by decide) (lt_length_of_not_short hshort)

theorem eq_ok_of_map_some {outcome : Except Packet.Fault Packet.Transport}
    (h : outcome.map some = .ok (some t)) : outcome = .ok t := by
  cases outcome with
  | error fault => cases h
  | ok found =>
    cases h
    rfl

theorem within_of_transport {f : Packet.Following} (h : Packet.transport f = .ok (some t)) :
    Within f.payload (transportLayer f.payload t) := by
  unfold Packet.transport at h
  split at h
  · cases h
  split at h
  · exact within_tcp (eq_ok_of_map_some h)
  split at h
  · exact within_udp (eq_ok_of_map_some h)
  split at h
  · exact within_icmpv4 (eq_ok_of_map_some h)
  split at h
  · exact within_icmpv6 (eq_ok_of_map_some h)
  · cases h

theorem Decoded.within {layers : Layers} (h : layers.Decoded) {n t : Layer}
    (hnetwork : layers.network = some n) (htransport : layers.transport = some t) :
    Within n.payload t := by
  cases h with
  | linkAtMost link fault => cases hnetwork
  | @packet link s hcoherent =>
    obtain ⟨d, _ | transport⟩ := s
    · cases htransport
    · cases hnetwork
      cases htransport
      exact within_of_transport hcoherent

end Layers

namespace Frame

/-- Whatever a record is decoded to, its transport payload is what is stated behind the header, and
what is left behind that payload is counted to the header. So header and payload tile what the
datagram carries exactly if nothing is left: always for TCP and ICMP, and for UDP if the length
field is zero or the length of what is carried. -/
theorem header_and_payload_tile_iff (r : Record) {n t : Layer}
    (hnetwork : (decode r).layers.network = some n)
    (htransport : (decode r).layers.transport = some t) :
    Layers.Within n.payload t ∧
      (Layers.Tiles n.payload t ↔ t.kind = .udp →
        (n.payload.field 4 2).bigEndian = 0 ∨
          (n.payload.field 4 2).bigEndian = n.payload.length) := by
  have hwithin := (Layers.decoded_decode r.linkType r.data).within hnetwork htransport
  exact ⟨hwithin, hwithin.tiles_iff.trans (LayerKind.statedSize_eq_length_iff _ _)⟩

/-- A record that is a bare IPv4 packet of so many bytes, with a datagram that carries two bytes,
and some more behind it. -/
def nameQuery (totalLength : UInt8) (behind : Bytes) : Record where
  time := none
  linkType := linkRawIP
  data := [0x45, 0, 0, totalLength, 0, 0, 0, 0, 64, 17, 0, 0, 10, 0, 0, 1, 10, 0, 0, 2,
    0x13, 0x88, 0, 53, 0, 10, 0, 0, 0x68, 0x69] ++ behind
  wireLength := 30 + .ofNat behind.length
  interface := 0

/-- Without anything behind the datagram, its header is what is in front of the payload. -/
theorem header_and_payload_tile_alone : ∃ n t,
    (decode (nameQuery 30 [])).layers.network = some n ∧
    (decode (nameQuery 30 [])).layers.transport = some t ∧
    t.contents = [0x13, 0x88, 0, 53, 0, 10, 0, 0] ∧ t.payload = [0x68, 0x69] ∧
    Layers.Tiles n.payload t := by
  let d : Bytes := [0x13, 0x88, 0, 53, 0, 10, 0, 0, 0x68, 0x69]
  let n : Layer := ⟨.ipv4, (nameQuery 30 []).data.take 20, d, some ⟨"10.0.0.1", "10.0.0.2", .ipv4⟩⟩
  let t : Layer := ⟨.udp, d.take 8, d.drop 8, some ⟨"5000", "53", .udpPort⟩⟩
  have hnetwork : (decode (nameQuery 30 [])).layers.network = some n := by decide
  have htransport : (decode (nameQuery 30 [])).layers.transport = some t := by decide
  obtain ⟨-, htiles⟩ := header_and_payload_tile_iff (nameQuery 30 []) hnetwork htransport
  exact ⟨n, t, hnetwork, htransport, rfl, rfl, htiles.2 fun _ => .inr (by decide)⟩

/-- With a byte behind the datagram, the first byte of the payload is in the header, too. -/
theorem payload_byte_in_header : ∃ n t,
    (decode (nameQuery 31 [0x78])).layers.network = some n ∧
    (decode (nameQuery 31 [0x78])).layers.transport = some t ∧
    t.kind = .udp ∧ n.payload = [0x13, 0x88, 0, 53, 0, 10, 0, 0, 0x68, 0x69, 0x78] ∧
    t.contents = [0x13, 0x88, 0, 53, 0, 10, 0, 0, 0x68] ∧ t.payload = [0x68, 0x69] ∧
    ¬t.contents ++ t.payload <+: n.payload :=
  ⟨_, _, rfl, rfl, by decide, by decide, by decide, by decide, by decide⟩

end Frame

end Trawl
