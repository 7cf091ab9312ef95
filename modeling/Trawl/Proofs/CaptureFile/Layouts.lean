import Trawl.CaptureFile.Blocks
import Trawl.CaptureFile.Classic
import Trawl.Proofs.Bytes
import Trawl.Proofs.CaptureFile.Window

/-!
# The two formats as layouts

Records and blocks tell their own length, a record by the captured length in its header, a block by
the length at its start. So nothing behind them matters, and where one is not there to its end, the
parser asks for its header or for the rest of it.
-/

namespace Trawl.CaptureFile

/-! ## Records -/

namespace ClassicHeader

variable {header : ClassicHeader} {b rest : Bytes} {record : Record}

/-- Up to where a record is asked for: to the end of its header, and then to the end of its data. -/
def asked (header : ClassicHeader) (b : Bytes) (k : Nat) : Nat :=
  if k < header.recordHeaderSize then header.recordHeaderSize else b.length

theorem le_recordHeaderSize (header : ClassicHeader) : 16 ≤ header.recordHeaderSize := by
  unfold recordHeaderSize
  split <;> omega

/-- The record of some bytes behind a record header. -/
def recordOf (header : ClassicHeader) (fields data : Bytes) : Record :=
  let number (offset : Nat) : Nat := header.order.read (fields.field offset 4)
  { time := some (.counted (UInt32.ofNat (number 0)) (UInt64.ofNat (number 4)) header.resolution)
    linkType := header.linkType
    data
    wireLength := UInt32.ofNat (number 12)
    interface := 0 }

theorem parseRecord_fields {fields data : Bytes} (hfields : fields.length = header.recordHeaderSize)
    (hdata : header.order.read (fields.field 8 4) = data.length) :
    header.parseRecord (fields ++ data) = .block (header.recordOf fields data) [] := by
  have hsplit : Bytes.split? data.length data = some (data, []) := by
    simpa using Bytes.split?_left (n := data.length) rfl []
  unfold parseRecord
  rw [Bytes.split?_left hfields]
  simp only [hdata, hsplit]
  rfl

theorem length_of_parseRecord (h : header.parseRecord b = .block record rest) :
    b.length = header.recordHeaderSize + header.order.read (b.field 8 4) + rest.length := by
  unfold parseRecord at h
  split at h
  · simp at h
  rename_i fields after hfields
  obtain ⟨rfl, hlength⟩ := Bytes.split?_eq_some hfields
  have hcaptured : (fields ++ after).field 8 4 = fields.field 8 4 :=
    Bytes.field_left (by have := header.le_recordHeaderSize; omega) after
  rw [hcaptured]
  dsimp only at h
  split at h
  · simp at h
  rename_i data rest' hdata
  obtain ⟨rfl, hcount⟩ := Bytes.split?_eq_some hdata
  simp only [Parsed.block.injEq] at h
  rw [List.length_append, List.length_append, hlength, hcount, h.2]
  omega

theorem parseRecord_append (h : header.parseRecord b = .block record rest) (more : Bytes) :
    header.parseRecord (b ++ more) = .block record (rest ++ more) := by
  unfold parseRecord at h ⊢
  split at h
  · simp at h
  rename_i fields after hfields
  rw [Bytes.split?_append more hfields]
  dsimp only at h ⊢
  split at h
  · simp at h
  rename_i data rest' hdata
  rw [Bytes.split?_append more hdata]
  simp only [Parsed.block.injEq] at h ⊢
  exact ⟨h.1, by rw [h.2]⟩

theorem parseRecord_take (h : header.parseRecord b = .block record []) {k : Nat}
    (hk : k < b.length) :
    header.parseRecord (b.take k) = .missing (header.asked b k - k) := by
  have hlength := length_of_parseRecord h
  have hsize := header.le_recordHeaderSize
  have htake : (b.take k).length = k := List.length_take_of_le (Nat.le_of_lt hk)
  unfold parseRecord asked
  by_cases hheader : k < header.recordHeaderSize
  · rw [Bytes.split?_eq_none (by omega), if_pos hheader, htake]
  · have hfields : Bytes.split? header.recordHeaderSize (b.take k) =
        some (b.take header.recordHeaderSize, (b.take k).drop header.recordHeaderSize) := by
      unfold Bytes.split?
      simp only [List.take_take, List.length_take]
      rw [if_pos (by omega), Nat.min_eq_left (by omega)]
    have hcaptured : Bytes.field (b.take header.recordHeaderSize) 8 4 = b.field 8 4 :=
      Bytes.field_take (by omega)
    have hafter : ((b.take k).drop header.recordHeaderSize).length =
        k - header.recordHeaderSize := by
      rw [List.length_drop, htake]
    rw [hfields, if_neg hheader]
    simp only [hcaptured]
    rw [Bytes.split?_eq_none (by rw [List.length_nil] at hlength; omega)]
    simp only [hafter]
    congr 1
    rw [List.length_nil] at hlength
    omega

theorem asked_bounds (h : header.parseRecord b = .block record []) {k : Nat} (hk : k < b.length) :
    k < header.asked b k ∧ header.asked b k ≤ b.length := by
  have hlength := length_of_parseRecord h
  unfold asked
  split <;> omega

/-- How the records of a classic file are laid out. -/
def layout (header : ClassicHeader) : Layout Unit Record where
  parser _ := header.recordParser
  next _ _ := ()
  asked _ := header.asked
  parse_nil _ := ⟨header.recordHeaderSize, by unfold recordHeaderSize; split <;> decide,
    by
      have hempty : Bytes.split? header.recordHeaderSize [] = none :=
        Bytes.split?_eq_none (by have := header.le_recordHeaderSize; simp; omega)
      simp [recordParser, parseRecord, hempty]⟩
  parse_append h rest := parseRecord_append h rest
  parse_take h _ hk := ⟨parseRecord_take h hk, asked_bounds h hk⟩

/-- A record that fills the window is refused where it is reached with its header in the window, but
not with all of its data. -/
theorem fits_iff {n : Nat} {piece : Piece Record} : header.layout.Fits () n piece ↔
    piece.bytes.length ≤ n ∨ piece.bytes.length ≤ windowSize ∧
      (n < header.recordHeaderSize ∨ piece.bytes.length < windowSize) := by
  have hsize : header.recordHeaderSize < windowSize := by
    unfold recordHeaderSize
    split <;> decide
  simp only [Layout.Fits, layout, asked]
  split <;> omega

end ClassicHeader

/-! ## Blocks -/

namespace Block

variable {order : ByteOrder} {least : Nat} {b rest : Bytes} {body : BlockBody} {block : Block}

theorem le_leastLength (kind : Nat) : 12 ≤ leastLength kind := by
  unfold leastLength
  repeat' split
  all_goals omega

theorem leastLength_lt (kind : Nat) : leastLength kind < 33 := by
  unfold leastLength
  repeat' split
  all_goals omega

theorem split?_of_parseBody (h : parseBody order least b = .block body rest) :
    least ≤ order.read (b.field 4 4) ∧
      ∃ block, b.split? (order.read (b.field 4 4)) = some (block, rest) ∧
        body = ⟨order.read (b.field 4 4), block.field 8 (order.read (b.field 4 4) - 12),
          order.read (block.drop (order.read (b.field 4 4) - 4))⟩ := by
  simp only [parseBody] at h
  split at h
  · simp at h
  split at h
  · simp at h
  rename_i hleast
  split at h
  · simp at h
  rename_i block rest' hblock
  simp only [Parsed.block.injEq] at h
  obtain ⟨rfl, rfl⟩ := h
  exact ⟨Nat.le_of_not_lt hleast, block, hblock, rfl⟩

theorem length_eq_of_parseBody (h : parseBody order least b = .block body rest) :
    least ≤ order.read (b.field 4 4) ∧ b.length = order.read (b.field 4 4) + rest.length := by
  obtain ⟨hle, block, hblock, -⟩ := split?_of_parseBody h
  obtain ⟨hb, hlength⟩ := Bytes.split?_eq_some hblock
  refine ⟨hle, ?_⟩
  rw [← hlength, ← List.length_append, ← hb]

theorem parseBody_append (hleast : 12 ≤ least) (h : parseBody order least b = .block body rest)
    (more : Bytes) : parseBody order least (b ++ more) = .block body (rest ++ more) := by
  obtain ⟨hle, hlength⟩ := length_eq_of_parseBody h
  obtain ⟨-, block, hblock, rfl⟩ := split?_of_parseBody h
  have hfield : (b ++ more).field 4 4 = b.field 4 4 := Bytes.field_left (by omega) more
  have hlong : (b ++ more).longerThan (least - 1) = true :=
    Bytes.longerThan_of_lt (by rw [List.length_append]; omega)
  simp only [parseBody, hfield, hlong, Bytes.split?_append more hblock, Nat.not_lt.2 hle,
    Bool.not_true, Bool.false_eq_true, if_false]

/-- Of a block that is not there to its end, first the part that every block of its kind has is
missing, then its content and at last the length that ends it. -/
theorem parseBody_take (hleast : 12 ≤ least) (h : parseBody order least b = .block body [])
    {k : Nat} (hk : k < b.length) : parseBody order least (b.take k) = .missing
      ((if k < least then least else if k < b.length - 4 then b.length - 4 else b.length) - k) := by
  obtain ⟨hle, hlength⟩ := length_eq_of_parseBody h
  rw [List.length_nil, Nat.add_zero] at hlength
  have htake : (b.take k).length = k := List.length_take_of_le (Nat.le_of_lt hk)
  unfold parseBody
  rw [Bytes.longerThan_eq, htake]
  by_cases hshort : k < least
  · rw [if_pos (by simp; omega), if_pos hshort]
  · have hfield : Bytes.field (b.take k) 4 4 = b.field 4 4 := Bytes.field_take (by omega)
    rw [if_neg (by simp; omega), if_neg hshort, hfield, ← hlength]
    simp only
    rw [if_neg (by omega), Bytes.split?_eq_none (by omega), Bytes.longerThan_eq, htake]
    simp only
    congr 2
    by_cases hcontent : k < b.length - 4
    · rw [if_neg (by simp; omega), if_pos hcontent]
    · rw [if_pos (by simp; omega), if_neg hcontent]

theorem interpret_of_rest {kind : Nat} {rest' : Bytes}
    (h : interpret order kind body rest = .block block rest') (more : Bytes) :
    interpret order kind body more = .block block more := by
  simp only [interpret] at h ⊢
  repeat' split at h
  all_goals simp_all

/-- The byte order that the byte-order magic of a section header tells. -/
def orderOf? (magic : Bytes) : Option ByteOrder :=
  if magic.littleEndian = 0x1A2B3C4D then some .little
  else if magic.littleEndian = 0x4D3C2B1A then some .big
  else none

theorem parseSection_eq (b : Bytes) : parseSection b =
    if !b.longerThan 11 then .missing (12 - b.length)
    else match orderOf? (b.field 8 4) with
      | none => .refused .notRecognized
      | some order =>
        match parseBody order (leastLength kindSection) b with
        | .block _ rest => .block (.sectionHeader order) rest
        | .missing count => .missing count
        | .refused cause => .refused cause :=
  rfl

theorem parseBody_of_parseSection (h : parseSection b = .block block rest) :
    ∃ order body, orderOf? (b.field 8 4) = some order ∧
      parseBody order (leastLength kindSection) b = .block body rest ∧
      block = .sectionHeader order := by
  rw [parseSection_eq] at h
  split at h
  · simp at h
  split at h
  · simp at h
  rename_i order horder
  split at h
  · rename_i body rest' hbody
    simp only [Parsed.block.injEq] at h
    obtain ⟨rfl, rfl⟩ := h
    exact ⟨order, body, horder, hbody, rfl⟩
  · simp at h
  · simp at h

theorem parseSection_append (h : parseSection b = .block block rest) (more : Bytes) :
    parseSection (b ++ more) = .block block (rest ++ more) := by
  obtain ⟨order, body, horder, hbody, rfl⟩ := parseBody_of_parseSection h
  obtain ⟨hle, hlength⟩ := length_eq_of_parseBody hbody
  have hleast := le_leastLength kindSection
  have hmagic : (b ++ more).field 8 4 = b.field 8 4 := Bytes.field_left (by omega) more
  have hlong : (b ++ more).longerThan 11 = true :=
    Bytes.longerThan_of_lt (by rw [List.length_append]; omega)
  rw [parseSection_eq, hlong, hmagic, horder, if_neg (by decide)]
  simp only [parseBody_append hleast hbody more]

/-- A block is a section header, or it has the outer form of a block and its content says what it
is. -/
theorem parse_cases (h : parse order b = .block block rest) :
    3 < b.length ∧ if order.read (b.field 0 4) = kindSection then parseSection b = .block block rest
      else ∃ body, parseBody order (leastLength (order.read (b.field 0 4))) b = .block body rest ∧
        interpret order (order.read (b.field 0 4)) body rest = .block block rest := by
  simp only [parse] at h
  split at h
  · simp at h
  rename_i hlong
  rw [Bytes.longerThan_eq] at hlong
  refine ⟨by simpa using hlong, ?_⟩
  split at h
  · rename_i hkind
    rwa [if_pos hkind]
  rename_i hkind
  rw [if_neg hkind]
  split at h
  · rename_i body rest' hbody
    obtain rfl := rest_interpret h
    exact ⟨body, hbody, h⟩
  · simp at h
  · simp at h

theorem parse_append (h : parse order b = .block block rest) (more : Bytes) :
    parse order (b ++ more) = .block block (rest ++ more) := by
  obtain ⟨hlength, h⟩ := parse_cases h
  have hkind : (b ++ more).field 0 4 = b.field 0 4 := Bytes.field_left (by omega) more
  have hlong : (b ++ more).longerThan 3 = true :=
    Bytes.longerThan_of_lt (by rw [List.length_append]; omega)
  simp only [parse, hkind, hlong, Bool.not_true, Bool.false_eq_true, if_false]
  by_cases hsection : order.read (b.field 0 4) = kindSection
  · rw [if_pos hsection] at h ⊢
    exact parseSection_append h more
  · rw [if_neg hsection] at h ⊢
    obtain ⟨body, hbody, hblock⟩ := h
    simp only [parseBody_append (le_leastLength _) hbody more]
    exact interpret_of_rest hblock _

/-- Up to where a block is asked for: its kind, its byte-order magic, the part that every block of
its kind has, its content, and the length that ends it. -/
def asked (order : ByteOrder) (b : Bytes) (k : Nat) : Nat :=
  let kind := order.read (b.field 0 4)
  if k < 4 then 4
  else if kind = kindSection ∧ k < 12 then 12
  else if k < leastLength kind then leastLength kind
  else if k < b.length - 4 then b.length - 4
  else b.length

theorem parseSection_take (h : parseSection b = .block block []) {k : Nat} (hk : k < b.length) :
    parseSection (b.take k) = .missing
      ((if k < 12 then 12
        else if k < leastLength kindSection then leastLength kindSection
        else if k < b.length - 4 then b.length - 4 else b.length) - k) := by
  obtain ⟨order, body, horder, hbody, rfl⟩ := parseBody_of_parseSection h
  have htake : (b.take k).length = k := List.length_take_of_le (Nat.le_of_lt hk)
  rw [parseSection_eq, Bytes.longerThan_eq, htake]
  by_cases hshort : k < 12
  · rw [if_pos (by simp; omega), if_pos hshort]
  · have hmagic : Bytes.field (b.take k) 8 4 = b.field 8 4 := Bytes.field_take (by omega)
    rw [if_neg (by simp; omega), if_neg hshort, hmagic, horder]
    simp only [parseBody_take (le_leastLength _) hbody hk]

theorem parse_take (h : parse order b = .block block []) {k : Nat} (hk : k < b.length) :
    parse order (b.take k) = .missing (asked order b k - k) := by
  obtain ⟨hlength, h⟩ := parse_cases h
  have htake : (b.take k).length = k := List.length_take_of_le (Nat.le_of_lt hk)
  simp only [parse, asked, Bytes.longerThan_eq, htake]
  by_cases hshort : k < 4
  · rw [if_pos (by simp; omega), if_pos hshort]
  have hkind : Bytes.field (b.take k) 0 4 = b.field 0 4 := Bytes.field_take (by omega)
  rw [if_neg (by simp; omega), if_neg hshort, hkind]
  by_cases hsection : order.read (b.field 0 4) = kindSection
  · rw [if_pos hsection] at h ⊢
    rw [parseSection_take h hk, hsection]
    simp only [true_and]
  · rw [if_neg hsection] at h ⊢
    obtain ⟨body, hbody, -⟩ := h
    simp only [parseBody_take (le_leastLength _) hbody hk, hsection, false_and, if_false]

theorem leastLength_le (h : parse order b = .block block []) :
    leastLength (order.read (b.field 0 4)) ≤ b.length := by
  obtain ⟨-, h⟩ := parse_cases h
  split at h
  · rename_i hkind
    obtain ⟨order, body, -, hbody, -⟩ := parseBody_of_parseSection h
    have := length_eq_of_parseBody hbody
    rw [hkind]
    omega
  · obtain ⟨body, hbody, -⟩ := h
    have := length_eq_of_parseBody hbody
    omega

theorem asked_bounds (h : parse order b = .block block []) {k : Nat} (hk : k < b.length) :
    k < asked order b k ∧ asked order b k ≤ b.length := by
  have hlength := leastLength_le h
  have hleast := le_leastLength (order.read (b.field 0 4))
  simp only [asked]
  repeat' split
  all_goals omega

/-- The byte order behind a block. -/
def orderAfter (order : ByteOrder) : Block → ByteOrder
  | .sectionHeader order => order
  | _ => order

/-- How a file of blocks is laid out. -/
def layout : Layout ByteOrder Block where
  parser := parser
  next := orderAfter
  asked := asked
  parse_nil _ := ⟨4, by decide, rfl⟩
  parse_append h rest := parse_append h rest
  parse_take h _ hk := ⟨parse_take h hk, asked_bounds h hk⟩

/-- A block that fills the window is refused where it is reached with all but a part of its last
four bytes in the window. -/
theorem fits_iff {n : Nat} {piece : Piece Block}
    (h : parse order piece.bytes = .block piece.value []) : layout.Fits order n piece ↔
      piece.bytes.length ≤ n ∨ piece.bytes.length ≤ windowSize ∧
        (n < piece.bytes.length - 4 ∨ piece.bytes.length < windowSize) := by
  have hlength := leastLength_le h
  have hleast := leastLength_lt (order.read (piece.bytes.field 0 4))
  simp only [Layout.Fits, layout, asked]
  unfold windowSize
  repeat' split
  all_goals omega

end Block

end Trawl.CaptureFile
