import Trawl.Frame

/-!
# How the layers of a frame hang together

Decoding comes to one of two things (`Layers.Decoded`): at most a link layer, with or without a
fault, or the layers of a packet, whose transport layer is the one behind the headers of its
datagram. So the layers agree with each other, whatever the bytes (`Frame.consistent_decode`).
-/

namespace Trawl

namespace Packet

/-- The transport layer of a packet is the one that follows the headers of its datagram. -/
def Sliced.Coherent (s : Sliced) : Prop :=
  Packet.transport s.datagram.following = .ok s.transport

/-- Every packet that an outcome has is coherent. -/
def Coherent (outcome : Except Fault (Option Sliced)) : Prop :=
  ∀ s, outcome = .ok (some s) → s.Coherent

theorem coherent_error (fault : Fault) : Coherent (.error fault) :=
  fun _ h => nomatch h

theorem coherent_none : Coherent (.ok none) :=
  fun _ h => nomatch h

theorem coherent_withTransport (outcome : Except Fault Datagram) :
    Coherent ((outcome >>= withTransport).map some) := by
  rcases outcome with fault | d
  · exact coherent_error fault
  · change Coherent ((withTransport d).map some)
    rw [withTransport]
    rcases htransport : transport d.following with fault | t
    · exact coherent_error fault
    · rintro s h
      cases h
      exact htransport

theorem coherent_announced : ∀ (tags etherType : Nat) (payload : Bytes),
    Coherent (announced tags etherType payload)
  | tags, etherType, payload => by
    unfold announced
    split
    · exact coherent_withTransport _
    split
    · exact coherent_withTransport _
    split
    · cases tags with
      | zero => exact coherent_none
      | succ tags =>
        rcases payload.split? 4 with _ | ⟨tag, rest⟩
        · exact coherent_error _
        · exact coherent_announced tags _ rest
    · exact coherent_none

theorem coherent_ofEthernet (data : Bytes) : Coherent (ofEthernet data) := by
  unfold ofEthernet
  split
  · exact coherent_announced _ _ _
  · exact coherent_error _

theorem coherent_ofRawIP (data : Bytes) : Coherent (ofRawIP data) :=
  coherent_withTransport _

end Packet

namespace Layers

/-- What decoding can come to. -/
inductive Decoded : Layers → Prop
  | linkAtMost (link : Option Layer) (fault : Option FrameFault) :
    Decoded { none with link, fault }
  | packet (link : Option Layer) {s : Packet.Sliced} (h : s.Coherent) : Decoded (ofSliced link s)

theorem decoded_ofOutcome (link : Option Layer)
    {outcome : Except Packet.Fault (Option Packet.Sliced)} (h : Packet.Coherent outcome) :
    Decoded (ofOutcome link outcome) := by
  rcases outcome with fault | _ | s
  · exact .linkAtMost link (some (.malformed fault))
  · exact .linkAtMost link .none
  · exact .packet link (h s rfl)

theorem decoded_decode (linkType : Int) (data : Bytes) : Decoded (decode linkType data) := by
  unfold decode
  split
  · exact decoded_ofOutcome _ (Packet.coherent_ofEthernet data)
  split
  · exact decoded_ofOutcome _ (Packet.coherent_ofRawIP data)
  · exact .linkAtMost .none (some (.unsupportedLink linkType))

end Layers

@[simp]
theorem Endpoint.address_ofAddress (a : IPAddress) (port : UInt16) :
    (ofAddress a port).address = a := by
  cases a <;> rfl

@[simp]
theorem Endpoint.port_ofAddress (a : IPAddress) (port : UInt16) :
    (ofAddress a port).port = port := by
  cases a <;> rfl

namespace Layers

theorem application?_of_ne_nil {payload : Bytes} (h : payload ≠ []) :
    application? payload = some ⟨.payload, payload, [], .none⟩ := by
  rw [application?, List.isEmpty_eq_false_iff.2 h]
  rfl

theorem application?_eq_some {payload : Bytes} {a : Layer} (h : application? payload = some a) :
    a.contents = payload ∧ payload ≠ [] := by
  by_cases hempty : payload = []
  · subst hempty
    cases h
  · rw [application?_of_ne_nil hempty] at h
    cases h
    exact ⟨rfl, hempty⟩

theorem segment?_isSome (d : Packet.Datagram) (carried : Bytes) (t : Packet.Transport) :
    (segment? d t).isSome ↔ (transportLayer carried t).kind = .tcp := by
  cases t <;> simp [segment?, transportLayer]

/-- The peers of the layers below a segment name its two ends. -/
theorem peers_of_segment? {d : Packet.Datagram} {t : Packet.Transport} {g : Reassembly.Segment}
    (h : segment? d t = some g) (carried : Bytes) :
    (∃ kind, (networkLayer d).peers =
      some ⟨g.source.address.toText, g.target.address.toText, kind⟩) ∧
    (transportLayer carried t).peers =
      some ⟨toString g.source.port.toNat, toString g.target.port.toNat, .tcpPort⟩ := by
  cases t with
  | tcp source target sequence syn fin rst payload =>
    cases h
    simp [networkLayer, transportLayer, portPeers]
  | udp => cases h
  | icmpv4 => cases h
  | icmpv6 => cases h

end Layers

namespace Frame

/-- The layers of a frame agree with each other. -/
structure Consistent (f : Frame) : Prop where
  /-- There is a layer for a fault exactly if there is one, and it holds everything captured. -/
  faultLayer_isSome : f.faultLayer?.isSome = f.layers.fault.isSome
  faultLayer_eq : ∀ e, f.faultLayer? = some e →
    e.kind = .decodeFailure ∧ e.contents = f.record.data ∧ e.payload = []
  /-- A fault leaves nothing above the link. -/
  nothing_above_link : f.layers.fault.isSome → f.layers.network = none ∧
    f.layers.transport = none ∧ f.layers.application = none ∧ f.layers.segment = none
  network_below : f.layers.transport.isSome → f.layers.network.isSome
  /-- An application layer is the payload of a transport layer, and not empty. -/
  transport_below : ∀ a, f.layers.application = some a →
    ∃ t, f.layers.transport = some t ∧ a.contents = t.payload ∧ a.contents ≠ []
  application_above : ∀ t, f.layers.transport = some t → t.payload ≠ [] →
    f.layers.application.isSome
  /-- There is a segment exactly if the transport layer is TCP. -/
  segment_isSome : f.layers.segment.isSome ↔ ∃ t, f.layers.transport = some t ∧ t.kind = .tcp
  /-- The ends of a segment are the peers that the layers show. -/
  segment_peers : ∀ g, f.layers.segment = some g → ∃ n t kind,
    f.layers.network = some n ∧ f.layers.transport = some t ∧
    n.peers = some ⟨g.source.address.toText, g.target.address.toText, kind⟩ ∧
    t.peers = some ⟨toString g.source.port.toNat, toString g.target.port.toNat, .tcpPort⟩ ∧
    f.payload = t.payload

/-- The application bytes are the payload of the transport layer, also where that is empty. -/
theorem payload_of_application {f : Frame} {payload : Bytes}
    (h : f.layers.application = Layers.application? payload) : f.payload = payload := by
  unfold Frame.payload
  rw [h]
  cases payload <;> rfl

namespace Consistent

variable (r : Record) (link : Option Layer)

theorem of_linkAtMost (fault : Option FrameFault) :
    Consistent ⟨r, { Layers.none with link, fault }⟩ where
  faultLayer_isSome := Option.isSome_map
  faultLayer_eq := by
    intro e h
    obtain ⟨_, -, rfl⟩ := Option.map_eq_some_iff.1 h
    exact ⟨rfl, rfl, rfl⟩
  nothing_above_link _ := ⟨rfl, rfl, rfl, rfl⟩
  network_below h := nomatch h
  transport_below := nofun
  application_above := nofun
  segment_isSome := ⟨nofun, fun ⟨_, h, _⟩ => nomatch h⟩
  segment_peers := nofun

/-- A datagram whose payload is not looked into. -/
theorem of_datagram (d : Packet.Datagram) : Consistent ⟨r, Layers.ofSliced link ⟨d, none⟩⟩ where
  faultLayer_isSome := rfl
  faultLayer_eq := nofun
  nothing_above_link h := nomatch h
  network_below _ := rfl
  transport_below := nofun
  application_above := nofun
  segment_isSome := ⟨nofun, fun ⟨_, h, _⟩ => nomatch h⟩
  segment_peers := nofun

theorem of_transport (d : Packet.Datagram) (t : Packet.Transport) :
    Consistent ⟨r, Layers.ofSliced link ⟨d, some t⟩⟩ where
  faultLayer_isSome := rfl
  faultLayer_eq := nofun
  nothing_above_link h := nomatch h
  network_below _ := rfl
  transport_below a h := by
    obtain ⟨hcontents, hne⟩ := Layers.application?_eq_some h
    exact ⟨_, rfl, hcontents, hcontents ▸ hne⟩
  application_above l h hne := by
    cases h
    exact Option.isSome_of_eq_some (Layers.application?_of_ne_nil hne)
  segment_isSome := by
    rw [Layers.ofSliced, Layers.segment?_isSome d d.following.payload t]
    exact ⟨fun h => ⟨_, rfl, h⟩, fun ⟨_, h, hkind⟩ => Option.some.inj h ▸ hkind⟩
  segment_peers g h := by
    obtain ⟨⟨kind, hnetwork⟩, htransport⟩ := Layers.peers_of_segment? h d.following.payload
    exact ⟨_, _, kind, rfl, rfl, hnetwork, htransport, payload_of_application rfl⟩

theorem of_decoded {layers : Layers} (h : layers.Decoded) : Consistent ⟨r, layers⟩ := by
  cases h with
  | linkAtMost link fault => exact of_linkAtMost r link fault
  | @packet link s =>
    obtain ⟨d, _ | t⟩ := s
    · exact of_datagram r link d
    · exact of_transport r link d t

end Consistent

/-- Decoding keeps a record as it is, and whatever its bytes are, the layers agree with each
other. -/
theorem consistent_decode (r : Record) : (decode r).record = r ∧ (decode r).Consistent :=
  ⟨rfl, .of_decoded r (Layers.decoded_decode r.linkType r.data)⟩

/-- A segment with one byte has all layers above the link. -/
example :
    let f := decode
      { time := none
        linkType := linkRawIP
        data := [0x45, 0, 0, 41, 0, 0, 0, 0, 64, 6, 0, 0, 10, 0, 0, 1, 10, 0, 0, 2,
          4, 0, 0, 80, 0, 0, 0, 1, 0, 0, 0, 0, 0x50, 0, 0, 0, 0, 0, 0, 0, 0x78]
        wireLength := 41
        interface := 0 }
    f.present.map Layer.kind = [.ipv4, .tcp, .payload] ∧ f.payload = [0x78] ∧
      f.layers.segment.map (·.source.port) = some 1024 := by
  decide

end Frame

end Trawl
