import Trawl.Bytes

/-!
# The octets of a text

The octets of a text are those of its characters in a row. A character of ASCII is the one octet
of its own value, and the octets of any other are beyond ASCII, so an octet below a value of ASCII
is only there for such a character (`le_of_mem_ofChars`).
-/

namespace Trawl.Bytes

/-- The octets of characters in UTF-8. -/
def ofChars (cs : List Char) : Bytes :=
  cs.flatMap String.utf8EncodeChar

@[simp]
theorem ofChars_nil : ofChars [] = [] := rfl

@[simp]
theorem ofChars_cons (c : Char) (cs : List Char) :
    ofChars (c :: cs) = String.utf8EncodeChar c ++ ofChars cs := rfl

@[simp]
theorem ofChars_append (cs ds : List Char) : ofChars (cs ++ ds) = ofChars cs ++ ofChars ds :=
  List.flatMap_append

theorem ofText_ofList (cs : List Char) : ofText (String.ofList cs) = ofChars cs := by
  simp [ofText, ofChars, String.toUTF8, List.utf8Encode]

theorem ofText_eq_ofChars (s : String) : ofText s = ofChars s.toList := by
  rw [← ofText_ofList, String.ofList_toList]

theorem ofText_of_toText? {b : Bytes} {s : String} (h : toText? b = some s) : ofText s = b := by
  unfold toText? String.fromUTF8? at h
  split at h
  · obtain rfl := Option.some.inj h
    simp [ofText, String.toUTF8, String.fromUTF8]
  · simp at h

theorem toText?_ofText (s : String) : toText? (ofText s) = some s := by
  have hvalid : (⟨(ofText s).toArray⟩ : ByteArray).IsValidUTF8 := s.isValidUTF8
  simp only [toText?, String.fromUTF8?, hvalid, dite_true]
  rfl

theorem encodeChar_of_ascii {c : Char} (h : c.toNat < 0x80) :
    String.utf8EncodeChar c = [UInt8.ofNat c.toNat] := by
  have hval : c.val.toNat ≤ 127 := Nat.le_of_lt_succ h
  simp only [String.utf8EncodeChar, hval, if_true]
  rfl

theorem ofChars_of_ascii {cs : List Char} (h : ∀ c ∈ cs, c.toNat < 0x80) :
    ofChars cs = cs.map fun c => UInt8.ofNat c.toNat := by
  induction cs with
  | nil => rfl
  | cons c cs ih =>
    rw [ofChars_cons, encodeChar_of_ascii (h c List.mem_cons_self),
      ih fun d hd => h d (List.mem_cons_of_mem c hd)]
    rfl

/-- The octets of a longer form are bits with a mark above them, and every mark is beyond ASCII. -/
theorem le_of_mem_encodeChar {c : Char} (h : 0x80 ≤ c.toNat) :
    ∀ b ∈ String.utf8EncodeChar c, 0x80 ≤ b := by
  have hmarked {n : Nat} (hlow : 0x80 ≤ n) (hhigh : n < 0x100) : 0x80 ≤ UInt8.ofNat n := by
    rw [UInt8.le_iff_toNat_le, UInt8.toNat_ofNat', Nat.mod_eq_of_lt hhigh]
    exact hlow
  have hval : ¬c.val.toNat ≤ 127 := Nat.not_le_of_lt h
  intro b hb
  simp only [String.utf8EncodeChar, hval, if_false] at hb
  split at hb
  · simp only [List.mem_cons, List.not_mem_nil, or_false] at hb
    rcases hb with rfl | rfl <;> exact hmarked (by omega) (by omega)
  · split at hb <;> simp only [List.mem_cons, List.not_mem_nil, or_false] at hb
    · rcases hb with rfl | rfl | rfl <;> exact hmarked (by omega) (by omega)
    · rcases hb with rfl | rfl | rfl | rfl <;> exact hmarked (by omega) (by omega)

/-- No octet is below a bound of ASCII that no character is below. -/
theorem le_of_mem_ofChars {n : UInt8} (hn : n ≤ 0x80) {cs : List Char}
    (h : ∀ c ∈ cs, n.toNat ≤ c.toNat) : ∀ b ∈ ofChars cs, n ≤ b := by
  intro b hb
  obtain ⟨c, hc, hb⟩ := List.mem_flatMap.mp hb
  by_cases hascii : c.toNat < 0x80
  · rw [encodeChar_of_ascii hascii, List.mem_singleton] at hb
    have := h c hc
    rw [hb, UInt8.le_iff_toNat_le, UInt8.toNat_ofNat']
    omega
  · exact UInt8.le_trans hn (le_of_mem_encodeChar (Nat.le_of_not_lt hascii) b hb)

end Trawl.Bytes
