import Trawl.Proofs.CaptureFile.Captured

/-!
# The lengths of a cut record

A frame tells from two lengths whether bytes are missing: what was kept and what the source states.
Cutting a record changes the first and leaves the second, and nothing remembers how much was
captured. So a cut shows only where the source states more than what is kept, and where it states
less than what was captured the length comes out too small (`Frame.cut_shown_iff`).
-/

namespace Trawl

namespace Frame

variable (r : Record) (snapshotLength : Nat)

theorem captureLength_decode_clamp : (decode (r.clamp snapshotLength)).captureLength =
    min r.data.length snapshotLength := by
  rw [Nat.min_comm]
  exact List.length_take

theorem length_decode_clamp : (decode (r.clamp snapshotLength)).length =
    max r.wireLength.toNat (min r.data.length snapshotLength) := by
  rw [length, captureLength_decode_clamp]
  rfl

theorem truncated_decode_clamp : (decode (r.clamp snapshotLength)).truncated ↔
    min r.data.length snapshotLength < r.wireLength.toNat := by
  rw [truncated, length_decode_clamp, captureLength_decode_clamp, decide_eq_true_iff]
  omega

/-- A frame shows what became of a record that was cut to a snapshot length: how much is kept, a
length that covers everything captured, and whether bytes are missing, cut off or never captured. -/
structure ShowsCut (f : Frame) : Prop where
  captureLength_eq : f.captureLength = min r.data.length snapshotLength
  le_length : r.data.length ≤ f.length
  truncated_iff : f.truncated ↔ snapshotLength < r.data.length ∨
    r.data.length < r.wireLength.toNat

theorem showsCut_decode_clamp_iff : ShowsCut r snapshotLength (decode (r.clamp snapshotLength)) ↔
    r.data.length ≤ snapshotLength ∨ r.data.length ≤ r.wireLength.toNat := by
  constructor
  · intro h
    have hlength := h.le_length
    rw [length_decode_clamp] at hlength
    omega
  · intro h
    refine ⟨captureLength_decode_clamp r _, ?_, (truncated_decode_clamp r _).trans ?_⟩
    · rw [length_decode_clamp]
      omega
    · omega

/-- The flag alone is also right where the stated length lies between what is kept and what was
captured. -/
theorem truncated_right_iff :
    ((decode (r.clamp snapshotLength)).truncated ↔ snapshotLength < r.data.length ∨
        r.data.length < r.wireLength.toNat) ↔
      r.data.length ≤ snapshotLength ∨ snapshotLength < r.wireLength.toNat := by
  rw [truncated_decode_clamp]
  omega

/-- The frames of a capture are its records, cut and decoded, and whatever a record and a snapshot
length are, the frame has as many bytes as are kept, the stated length or that of these bytes, and
is flagged if the source states more than them. So it shows the cut exactly if nothing is cut off or
the source states at least what was captured. -/
theorem cut_shown_iff (machine : Machine) (settings : Settings) (script : Script) :
    (Capture.run machine settings script).frames.reverse =
        script.records.map (fun r => decode (r.clamp settings.snapshotLength)) ∧
      ∀ (r : Record) (s : Nat),
        (decode (r.clamp s)).captureLength = min r.data.length s ∧
        (decode (r.clamp s)).length = max r.wireLength.toNat (min r.data.length s) ∧
        ((decode (r.clamp s)).truncated ↔ min r.data.length s < r.wireLength.toNat) ∧
        (ShowsCut r s (decode (r.clamp s)) ↔
          r.data.length ≤ s ∨ r.data.length ≤ r.wireLength.toNat) ∧
        (((decode (r.clamp s)).truncated ↔ s < r.data.length ∨
            r.data.length < r.wireLength.toNat) ↔
          r.data.length ≤ s ∨ s < r.wireLength.toNat) :=
  ⟨Capture.frames_run machine settings script, fun r s => ⟨captureLength_decode_clamp r s,
    length_decode_clamp r s, truncated_decode_clamp r s, showsCut_decode_clamp_iff r s,
    truncated_right_iff r s⟩⟩

open CaptureFile in
/-- A file may hold a record of twenty bytes that states ten. Cut to sixteen, it is shown as one of
sixteen bytes that nothing is missing from. -/
theorem cut_not_shown : ∃ (file : Bytes) (r : Record) (script : Script) (f : Frame),
    r.data.length = 20 ∧ r.wireLength = 10 ∧
    Script.ofFile file = .ok script ∧ script.records = [r] ∧
    (Capture.run .steady { snapshotLength := 16 } script).frames = [f] ∧
    f.captureLength = 16 ∧ f.length = 16 ∧ f.truncated = false ∧ ¬ShowsCut r 16 f := by
  let head : FileHead :=
    ⟨.little, .micro, [2, 0, 4, 0, 0, 0, 0, 0, 0, 0, 0, 0, 0xFF, 0xFF, 0, 0], 1, rfl⟩
  let e : Entry :=
    ⟨1, 0, [2, 0, 0, 0, 0, 0xFE, 2, 0, 0, 0, 0, 1, 8, 1, 0, 1, 2, 3, 4, 5], 10, by decide⟩
  let r := e.record head
  refine ⟨fileBytes head [e], r, ⟨[.record r], none⟩, decode (r.clamp 16), rfl, rfl,
    ofFile_fileBytes head (by decide), rfl, rfl, rfl, rfl, by decide, ?_⟩
  rw [showsCut_decode_clamp_iff]
  decide

end Frame

end Trawl
