import Trawl.Bytes

/-!
# Pieces of byte strings

What is cut off or read where bytes are put together from pieces: the first piece is there whatever
follows it, and a number that was written in a byte order is read in it again, also where it stands
in a row of others.
-/

namespace Trawl

/-- The octets of a number of 32 bits in a byte order. -/
def ByteOrder.write : ByteOrder → UInt32 → Bytes
  | .little, n => [n.toUInt8, (n >>> 8).toUInt8, (n >>> 16).toUInt8, (n >>> 24).toUInt8]
  | .big, n => [(n >>> 24).toUInt8, (n >>> 16).toUInt8, (n >>> 8).toUInt8, n.toUInt8]

@[simp]
theorem ByteOrder.length_write (order : ByteOrder) (n : UInt32) : (order.write n).length = 4 := by
  cases order <;> rfl

theorem ByteOrder.read_write (order : ByteOrder) (n : UInt32) :
    order.read (order.write n) = n.toNat := by
  have := n.toNat_lt
  cases order <;>
    simp [read, write, Bytes.littleEndian, Bytes.bigEndian, Nat.shiftRight_eq_div_pow] <;> omega

/-- Bytes of one length are told apart by the number that they write. -/
theorem Bytes.eq_of_littleEndian : ∀ {a b : Bytes}, a.length = b.length →
    a.littleEndian = b.littleEndian → a = b
  | [], [], _, _ => rfl
  | x :: a, y :: b, hlength, h => by
    have hx := x.toNat_lt
    have hy := y.toNat_lt
    simp only [littleEndian, List.foldr_cons] at h
    have hmore : littleEndian a = littleEndian b := by
      unfold littleEndian
      omega
    have hfirst : x.toNat = y.toNat := by
      unfold littleEndian at hmore
      omega
    rw [UInt8.toNat_inj.1 hfirst, eq_of_littleEndian (Nat.succ.inj hlength) hmore]

theorem Bytes.field_append {before field after : Bytes} {offset width : Nat}
    (hbefore : before.length = offset) (hfield : field.length = width) :
    (before ++ (field ++ after)).field offset width = field := by
  subst hbefore hfield
  simp [Bytes.field]

theorem Bytes.field_left {b : Bytes} {offset width : Nat} (h : offset + width ≤ b.length)
    (rest : Bytes) : (b ++ rest).field offset width = b.field offset width := by
  rw [field, field, List.drop_append_of_le_length (by omega),
    List.take_append_of_le_length (by rw [List.length_drop]; omega)]

theorem Bytes.field_take {b : Bytes} {k offset width : Nat} (h : offset + width ≤ k) :
    Bytes.field (b.take k) offset width = b.field offset width := by
  rw [field, field, List.drop_take, List.take_take, Nat.min_eq_left (by omega)]

theorem Bytes.split?_left {head : Bytes} {n : Nat} (h : head.length = n) (rest : Bytes) :
    Bytes.split? n (head ++ rest) = some (head, rest) := by
  subst h
  simp [Bytes.split?]

theorem Bytes.eq_of_split? {b : Bytes} {n : Nat} {parts : Bytes × Bytes}
    (h : Bytes.split? n b = some parts) : n ≤ b.length ∧ parts = (b.take n, b.drop n) := by
  obtain ⟨rfl, rfl⟩ := Bytes.split?_eq_some h
  simp

theorem Bytes.split?_append {n : Nat} {b head rest : Bytes} (more : Bytes)
    (h : Bytes.split? n b = some (head, rest)) :
    Bytes.split? n (b ++ more) = some (head, rest ++ more) := by
  obtain ⟨rfl, rfl⟩ := Bytes.split?_eq_some h
  simp [Bytes.split?]

theorem Bytes.split?_eq_none {b : Bytes} {n : Nat} (h : b.length < n) :
    Bytes.split? n b = none := by
  have hne : ¬min n b.length = n := by omega
  simp [Bytes.split?, hne]

theorem Bytes.longerThan_eq (b : Bytes) (n : Nat) : b.longerThan n = decide (n < b.length) := by
  rw [longerThan, Bool.eq_iff_iff]
  simp

theorem Bytes.longerThan_of_lt {b : Bytes} {n : Nat} (h : n < b.length) :
    b.longerThan n = true := by
  rw [longerThan_eq, decide_eq_true h]

/-! ## Numbers in a row -/

namespace ByteOrder

/-- The octets of some numbers of 32 bits, one after the other. -/
def words (order : ByteOrder) (ws : List UInt32) : Bytes :=
  ws.flatMap order.write

variable (order : ByteOrder)

@[simp]
theorem length_words (ws : List UInt32) : (order.words ws).length = 4 * ws.length := by
  induction ws with
  | nil => rfl
  | cons w ws ih =>
    rw [words, List.flatMap_cons, List.length_append, length_write, ← words, ih, List.length_cons]
    omega

theorem words_append (ws ws' : List UInt32) :
    order.words (ws ++ ws') = order.words ws ++ order.words ws' :=
  List.flatMap_append

/-- Each number of a row is read where it stands. -/
theorem read_word {ws : List UInt32} {i : Nat} {n : UInt32} (h : ws[i]? = some n) (rest : Bytes) :
    order.read ((order.words ws ++ rest).field (4 * i) 4) = n.toNat := by
  obtain ⟨hi, rfl⟩ := List.getElem?_eq_some_iff.1 h
  have hws : ws = ws.take i ++ ([ws[i]] ++ ws.drop (i + 1)) := by simp
  have hbefore : (order.words (ws.take i)).length = 4 * i := by
    rw [length_words, List.length_take, Nat.min_eq_left (Nat.le_of_lt hi)]
  have hword : order.words [ws[i]] = order.write ws[i] := List.append_nil _
  have hbytes := congrArg (order.words · ++ rest) hws
  simp only [words_append, hword, List.append_assoc] at hbytes
  rw [hbytes, Bytes.field_append hbefore (order.length_write _), order.read_write]

end ByteOrder

end Trawl
