import Trawl.Text.Base64

/-!
# Base64 there and back

The characters of a group of three octets stand for these octets (`group?_letters`), also where
zero octets took the place of missing ones. So bytes are decoded to what was encoded.
-/

namespace Trawl.Text.Base64

theorem value?_letter : ∀ n < 64, value? (letter n) = some n := by
  decide

theorem letter_ne_filling : ∀ n < 64, letter n ≠ '=' := by
  decide

theorem letter₀_lt (a : UInt8) : a.toNat / 4 < 64 := by
  have := a.toNat_lt
  omega

theorem letter₁_lt (a b : UInt8) : a.toNat % 4 * 16 + b.toNat / 16 < 64 := by
  have := b.toNat_lt
  omega

theorem letter₂_lt (b c : UInt8) : b.toNat % 16 * 4 + c.toNat / 64 < 64 := by
  have := c.toNat_lt
  omega

theorem letter₃_lt (c : UInt8) : c.toNat % 64 < 64 :=
  Nat.mod_lt _ (by decide)

theorem group?_letters (a b c : UInt8) :
    group? (letter₀ a) (letter₁ a b) (letter₂ b c) (letter₃ c) = some [a, b, c] := by
  have ha : a.toNat / 4 * 4 + (a.toNat % 4 * 16 + b.toNat / 16) / 16 = a.toNat := by
    have := b.toNat_lt
    omega
  have hb : (a.toNat % 4 * 16 + b.toNat / 16) % 16 * 16 + (b.toNat % 16 * 4 + c.toNat / 64) / 4 =
      b.toNat := by
    have := b.toNat_lt
    have := c.toNat_lt
    omega
  have hc : (b.toNat % 16 * 4 + c.toNat / 64) % 4 * 64 + c.toNat % 64 = c.toNat := by
    have := c.toNat_lt
    omega
  simp only [group?, letter₀, letter₁, letter₂, letter₃, value?_letter _ (letter₀_lt a),
    value?_letter _ (letter₁_lt a b), value?_letter _ (letter₂_lt b c),
    value?_letter _ (letter₃_lt c), bind, Option.bind, pure, ha, hb, hc, UInt8.ofNat_toNat]

theorem lastGroup?_letters (a b c : UInt8) :
    lastGroup? (letter₀ a) (letter₁ a b) (letter₂ b c) (letter₃ c) = some [a, b, c] := by
  have hlast : letter₃ c ≠ '=' := letter_ne_filling _ (letter₃_lt c)
  simp [lastGroup?, hlast, group?_letters]

/-- Two octets are encoded as if a zero octet followed, whose character is left out. -/
theorem lastGroup?_two (a b : UInt8) :
    lastGroup? (letter₀ a) (letter₁ a b) (letter₂ b 0) '=' = some [a, b] := by
  have hthird : letter₂ b 0 ≠ '=' := letter_ne_filling _ (letter₂_lt b 0)
  have hgroup : group? (letter₀ a) (letter₁ a b) (letter₂ b 0) 'A' = some [a, b, 0] :=
    group?_letters a b 0
  simp [lastGroup?, hthird, hgroup]

/-- One octet is encoded as if two zero octets followed. -/
theorem lastGroup?_one (a : UInt8) :
    lastGroup? (letter₀ a) (letter₁ a 0) '=' '=' = some [a] := by
  have hgroup : group? (letter₀ a) (letter₁ a 0) 'A' 'A' = some [a, 0, 0] :=
    group?_letters a 0 0
  simp [lastGroup?, hgroup]

theorem encodeOnto_eq : ∀ (b : Bytes) (done : List Char),
    encodeOnto done b = done.reverse ++ encodeOnto [] b
  | [], done => by simp [encodeOnto]
  | [a], done => by simp [encodeOnto]
  | [a, b], done => by simp [encodeOnto]
  | a :: b :: c :: rest, done => by
    rw [encodeOnto, encodeOnto_eq rest, encodeOnto, encodeOnto_eq rest [_, _, _, _]]
    simp

theorem encodeOnto_group (a b c : UInt8) (rest : Bytes) :
    encodeOnto [] (a :: b :: c :: rest) =
      letter₀ a :: letter₁ a b :: letter₂ b c :: letter₃ c :: encodeOnto [] rest := by
  rw [encodeOnto, encodeOnto_eq]
  rfl

theorem decodeChars?_encodeOnto : ∀ b : Bytes, decodeChars? (encodeOnto [] b) = some b
  | [] => rfl
  | [a] => lastGroup?_one a
  | [a, b] => lastGroup?_two a b
  | [a, b, c] => lastGroup?_letters a b c
  | a :: b :: c :: d :: rest => by
    have ih := decodeChars?_encodeOnto (d :: rest)
    rw [encodeOnto_group]
    -- The group is not the last one, as the octets after it have characters too.
    cases hmore : encodeOnto [] (d :: rest) with
    | nil =>
      rw [hmore] at ih
      simp [decodeChars?] at ih
    | cons p more =>
      rw [hmore] at ih
      simp [decodeChars?, group?_letters, ih]

/-- What was encoded is decoded. -/
theorem decode?_encode (b : Bytes) : decode? (encode b) = some b := by
  rw [decode?, encode, String.toList_ofList, decodeChars?_encodeOnto]

end Trawl.Text.Base64
