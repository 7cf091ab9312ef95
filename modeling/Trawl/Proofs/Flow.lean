import Mathlib.Data.Sym.Sym2
import Trawl.Flow

/-!
# What a flow knows of its ends

A conversation keeps its two ends in order, so all that it knows is which two they are; a flow knows
in addition which of them sends. Both come down to `rank_injective`: the order of ends distinguishes
all that differ, in either address family and in every field.
-/

namespace Trawl

namespace Endpoint

/-- Ends of equal rank are equal. The ranks of IPv4 ends stay below those of all IPv6 ends, and the
fields of one end are the digits of its rank. -/
theorem rank_injective : Function.Injective rank := by
  rintro (⟨⟨a⟩, p⟩ | ⟨⟨a⟩, p, l, s⟩) (⟨⟨a'⟩, p'⟩ | ⟨⟨a'⟩, p', l', s'⟩) h <;> simp only [rank] at h
  case v4.v4 =>
    have hp := p.toNat_lt
    have hp' := p'.toNat_lt
    have ha : a.toNat = a'.toNat := by omega
    have hport : p.toNat = p'.toNat := by omega
    rw [UInt32.toNat_inj.mp ha, UInt16.toNat_inj.mp hport]
  case v4.v6 =>
    have ha := a.toNat_lt
    have hp := p.toNat_lt
    omega
  case v6.v4 =>
    have ha := a'.toNat_lt
    have hp := p'.toNat_lt
    omega
  case v6.v6 =>
    have hp := p.toNat_lt
    have hp' := p'.toNat_lt
    have hl := l.toNat_lt
    have hl' := l'.toNat_lt
    have hs := s.toNat_lt
    have hs' := s'.toNat_lt
    have ha : a.toNat = a'.toNat := by omega
    have hport : p.toNat = p'.toNat := by omega
    have hlabel : l.toNat = l'.toNat := by omega
    have hscope : s.toNat = s'.toNat := by omega
    rw [BitVec.toNat_inj.mp ha, UInt16.toNat_inj.mp hport, UInt32.toNat_inj.mp hlabel,
      UInt32.toNat_inj.mp hscope]

theorem eq_of_le_of_le {a b : Endpoint} (hab : a ≤ b) (hba : b ≤ a) : a = b :=
  rank_injective (Nat.le_antisymm hab hba)

end Endpoint

namespace Conversation

/-- The two ends, in no order. -/
def ends (c : Conversation) : Sym2 Endpoint :=
  s(c.low, c.high)

theorem ends_between (a b : Endpoint) : (between a b).ends = s(a, b) := by
  unfold between ends
  split
  · rfl
  · exact Sym2.eq_swap

theorem between_comm (a b : Endpoint) : between a b = between b a := by
  unfold between
  split <;> split <;> rename_i hab hba
  · rw [Endpoint.eq_of_le_of_le hab hba]
  · rfl
  · rfl
  · exact absurd (Nat.le_of_not_le hab) hba

/-- The conversation between two ends is that between two others exactly if they are the same two,
in whichever order. -/
theorem between_eq_between_iff {a b c d : Endpoint} :
    between a b = between c d ↔ s(a, b) = s(c, d) := by
  constructor
  · intro h
    rw [← ends_between, h, ends_between]
  · intro h
    rcases Sym2.eq_iff.mp h with ⟨rfl, rfl⟩ | ⟨rfl, rfl⟩
    · rfl
    · exact between_comm a b

end Conversation

namespace Flow

theorem between_of_le {a b : Endpoint} (h : a ≤ b) : between a b = ⟨⟨a, b⟩, .lowToHigh⟩ := by
  simp [between, Conversation.between, Conversation.directionOf, h]

/-- The sender is the higher end only where the ends differ, so its direction is not taken for that
of the lower one. -/
theorem between_of_not_le {a b : Endpoint} (h : ¬a ≤ b) :
    between a b = ⟨⟨b, a⟩, .highToLow⟩ := by
  have hne : a ≠ b := fun hab => h (hab ▸ Nat.le_refl _)
  simp [between, Conversation.between, Conversation.directionOf, h, hne]

theorem source_between (a b : Endpoint) : (between a b).source = a := by
  by_cases h : a ≤ b
  · rw [between_of_le h]
    rfl
  · rw [between_of_not_le h]
    rfl

theorem target_between (a b : Endpoint) : (between a b).target = b := by
  by_cases h : a ≤ b
  · rw [between_of_le h]
    rfl
  · rw [between_of_not_le h]
    rfl

theorem between_eq_between_iff {a b c d : Endpoint} :
    between a b = between c d ↔ a = c ∧ b = d := by
  constructor
  · intro h
    constructor
    · rw [← source_between a b, h, source_between]
    · rw [← target_between a b, h, target_between]
  · rintro ⟨rfl, rfl⟩
    rfl

/-- A conversation stands for an unordered pair of ends and a flow for an ordered one: equal pairs
have the same one and different pairs different ones, the ends can be read off a flow, and the two
flows between two ends belong to one conversation and differ exactly if the ends do. -/
theorem encodes_ends (a b c d : Endpoint) :
    (Conversation.between a b = Conversation.between c d ↔ s(a, b) = s(c, d)) ∧
      (between a b = between c d ↔ a = c ∧ b = d) ∧
      (between a b).source = a ∧ (between a b).target = b ∧
      (between a b).conversation = (between b a).conversation ∧
      (between a b ≠ between b a ↔ a ≠ b) := by
  refine ⟨Conversation.between_eq_between_iff, between_eq_between_iff, source_between a b,
    target_between a b, Conversation.between_comm a b, ?_⟩
  rw [Ne, between_eq_between_iff]
  constructor
  · rintro h rfl
    exact h ⟨rfl, rfl⟩
  · rintro h ⟨rfl, -⟩
    exact h rfl

end Flow

end Trawl
