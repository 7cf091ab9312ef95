import Trawl.CaptureFile.Reader
import Trawl.Proofs.CaptureFile.Window
import Trawl.Proofs.CaptureFile.Written

/-!
# Classic capture files are read back

The window never holds more than its size of a file, and what it holds when a record is reached
depends on the sizes of the records before it. So that is followed from record to record
(`aheadAfter`), and each is read or refused for how much of it is ahead
(`Entry.fetch_bytes_append`). A written file is read back but for a record that fills the window
(`written_read_back`), and such a record does stop the reading, though each record of the file has
room in the window (`full_window_refused`).
-/

namespace Trawl.CaptureFile

/-! ## One record -/

namespace Entry

/-- Whether a record is read that is reached with so many bytes ahead: a record that fills the
window is refused where its header is there, but not all of its data. -/
def Fits (ahead : Nat) (e : Entry) : Prop :=
  e.size ≤ ahead ∨ ahead < 16 ∨ e.size < windowSize

/-- How many bytes are ahead when a record has been read that was reached with so many. -/
def aheadAfter (ahead : Nat) (e : Entry) : Nat :=
  if e.size ≤ ahead then ahead - e.size else windowSize - e.size

instance (ahead : Nat) (e : Entry) : Decidable (e.Fits ahead) :=
  inferInstanceAs (Decidable (_ ∨ _ ∨ _))

variable (head : FileHead) (e : Entry) {n : Nat}

theorem aheadAfter_piece : (e.piece head).aheadAfter n = e.aheadAfter n := by
  simp only [Piece.aheadAfter, aheadAfter, piece, e.length_bytes]

theorem aheadAfter_le (hn : n ≤ windowSize) : e.aheadAfter n ≤ windowSize := by
  unfold aheadAfter
  split <;> omega

theorem parse_take {left : Bytes} (hleft : left.take n = (e.bytes head.order).take n)
    (h : n < e.size) : head.header.recordParser.parse (Window.ahead n left).buffered =
      .missing (if n < 16 then 16 - n else e.size - n) := by
  rw [Window.ahead, hleft]
  exact e.parseRecord_take head h

/-- What is missing of a record leaves no room where all of its header is there and it fills the
window. -/
theorem windowSize_le_iff {k : Nat} (hk : k < e.size) :
    windowSize ≤ k + (if k < 16 then 16 - k else e.size - k) ↔ e.size = windowSize ∧ 16 ≤ k := by
  have hsize : e.size ≤ windowSize := e.fits
  have hwindow : 16 < windowSize := by decide
  split <;> omega

theorem fits_piece_iff : head.header.layout.Fits () n (e.piece head) ↔ e.Fits n := by
  have hsize : e.size ≤ windowSize := e.fits
  have hheader : head.header.recordHeaderSize = 16 := rfl
  rw [ClassicHeader.fits_iff, hheader, piece, e.length_bytes, Fits]
  omega

/-- What comes of a record, whatever follows it. -/
theorem fetch_bytes_append (rest : Bytes) (hn : n ≤ windowSize) :
    (Window.ahead n (e.bytes head.order ++ rest)).fetch head.header.recordParser =
      if e.Fits n then .ok (some (e.record head, Window.ahead (e.aheadAfter n) rest))
      else .error .windowTooSmall := by
  have hparse : (head.header.layout.parser ()).parse (e.piece head).bytes =
      .block (e.piece head).value [] :=
    e.parseRecord_bytes head
  have hfetch := Layout.fetch_append hparse rest hn
  simp only [e.fits_piece_iff head, e.aheadAfter_piece head] at hfetch
  exact hfetch

/-- Why a record cannot be read of which only so many bytes are there. -/
def cutCause (k : Nat) : Cause :=
  if e.size = windowSize ∧ 16 ≤ k then .windowTooSmall else .unexpectedEnd

variable {k : Nat}

theorem fetch_of_exhausted (hpos : 0 < k) (hk : k < e.size) :
    (⟨(e.bytes head.order).take k, [], true⟩ : Window).fetch head.header.recordParser =
      .error .unexpectedEnd := by
  refine Window.fetch_of_cut (e.parseRecord_take head hk) rfl ?_
  rwa [← List.length_pos_iff, e.length_take_bytes head.order (Nat.le_of_lt hk)]

/-- What comes of a record that is cut off, where all that is there of it has been read. -/
theorem fetch_of_length_le (hpos : 0 < k) (hk : k < e.size) (hn : k ≤ n) :
    (Window.ahead n ((e.bytes head.order).take k)).fetch head.header.recordParser =
      .error (e.cutCause k) := by
  have hsize : e.size ≤ windowSize := e.fits
  have hlength := e.length_take_bytes head.order (Nat.le_of_lt hk)
  rw [Window.ahead_of_length_le (by omega),
    Window.fetch_of_missing (e.parseRecord_take head hk) rfl, hlength,
    Window.refill_of_unread_eq_nil, e.fetch_of_exhausted head hpos hk]
  simp only [e.windowSize_le_iff hk, cutCause]
  split <;> rfl

/-- What comes of a record that is cut off. -/
theorem fetch_take (hpos : 0 < k) (hk : k < e.size) (hn : n ≤ windowSize) :
    (Window.ahead n ((e.bytes head.order).take k)).fetch head.header.recordParser =
      .error (e.cutCause k) := by
  have hsize : e.size ≤ windowSize := e.fits
  by_cases h : k ≤ n
  · exact e.fetch_of_length_le head hpos hk h
  · have hlength := e.length_take_bytes head.order (Nat.le_of_lt hk)
    have hleft : ((e.bytes head.order).take k).take n = (e.bytes head.order).take n := by
      rw [List.take_take, Nat.min_eq_left (by omega)]
    have hbuffered : (Window.ahead n ((e.bytes head.order).take k)).buffered.length = n := by
      rw [Window.ahead, hleft, e.length_take_bytes head.order (by omega)]
    rw [Window.fetch_of_missing (e.parse_take head hleft (by omega)) rfl, hbuffered,
      Window.refill_ahead hn (by omega), e.fetch_of_length_le head hpos hk (by omega)]
    simp only [e.windowSize_le_iff (show n < e.size by omega), cutCause]
    split
    · rw [if_pos (by omega)]
    · rfl

end Entry

/-! ## All records -/

/-- The bytes of a file with some records. -/
def fileBytes (head : FileHead) (entries : List Entry) : Bytes :=
  head.bytes ++ entries.flatMap (·.bytes head.order)

/-- How many bytes are ahead when the global header has been read. -/
def aheadAtFirst : Nat :=
  windowSize - Reader.classicHeaderSize

theorem aheadAtFirst_le : aheadAtFirst ≤ windowSize :=
  Nat.sub_le _ _

/-- Whether all records are read, the first of them reached with so many bytes ahead. -/
def Readable : (ahead : Nat) → List Entry → Prop
  | _, [] => True
  | ahead, e :: entries => e.Fits ahead ∧ Readable (e.aheadAfter ahead) entries

instance : (ahead : Nat) → (entries : List Entry) → Decidable (Readable ahead entries)
  | _, [] => inferInstanceAs (Decidable True)
  | ahead, e :: entries =>
    have := instDecidableReadable (e.aheadAfter ahead) entries
    inferInstanceAs (Decidable (_ ∧ _))

/-- How many bytes are ahead after some records. -/
def aheadAfter (ahead : Nat) (entries : List Entry) : Nat :=
  entries.foldl (fun ahead e => e.aheadAfter ahead) ahead

namespace Reader

section Records

variable {done : List Record} {reader reader' : Reader} {record : Record} {fault : Fault}

theorem recordsOnto_of_next (h : reader.next = .ok (some (record, reader'))) :
    recordsOnto done reader = recordsOnto (record :: done) reader' := by
  rw [recordsOnto.eq_def]
  split <;> rename_i hnext <;> rw [h] at hnext <;> cases hnext
  rfl

theorem recordsOnto_of_end (h : reader.next = .ok none) :
    recordsOnto done reader = (done.reverse, none) := by
  rw [recordsOnto.eq_def]
  split <;> rename_i hnext <;> rw [h] at hnext <;> cases hnext

theorem recordsOnto_of_error (h : reader.next = .error fault) :
    recordsOnto done reader = (done.reverse, some fault) := by
  rw [recordsOnto.eq_def]
  split <;> rename_i hnext <;> rw [h] at hnext <;> cases hnext
  rfl

end Records

variable (head : FileHead) (e : Entry) {n k : Nat}

/-- A reader of a file with a header, with so many bytes of what is left ahead. -/
def ahead (n : Nat) (left : Bytes) : Reader :=
  .classic head.header (Window.ahead n left)

theorem next_bytes_append (rest : Bytes) (hn : n ≤ windowSize) :
    (ahead head n (e.bytes head.order ++ rest)).next =
      if e.Fits n then .ok (some (e.record head, ahead head (e.aheadAfter n) rest))
      else .error (.unreadable .classic .reading .windowTooSmall) := by
  simp only [ahead, next, e.fetch_bytes_append head rest hn]
  by_cases hfits : e.Fits n
  · simp only [if_pos hfits]
  · simp only [if_neg hfits]

theorem next_take (hpos : 0 < k) (hk : k < e.size) (hn : n ≤ windowSize) :
    (ahead head n ((e.bytes head.order).take k)).next =
      .error (.unreadable .classic .reading (e.cutCause k)) := by
  simp only [ahead, next, e.fetch_take head hpos hk hn]

theorem next_nil : (ahead head n []).next = .ok none := by
  have hparse : head.header.recordParser.parse [] = .missing 16 := rfl
  simp only [ahead, next, Window.fetch_ahead_nil hparse (by decide)]

theorem recordsOnto_of_readable {rest : Bytes} : ∀ {n : Nat} {entries : List Entry}
    {done : List Record}, n ≤ windowSize → Readable n entries →
    recordsOnto done (ahead head n (entries.flatMap (·.bytes head.order) ++ rest)) =
      recordsOnto ((entries.map (·.record head)).reverse ++ done)
        (ahead head (aheadAfter n entries) rest)
  | _, [], _, _, _ => rfl
  | n, e :: entries, done, hn, h => by
    obtain ⟨hfits, hentries⟩ := h
    have hnext := next_bytes_append head e (entries.flatMap (·.bytes head.order) ++ rest) hn
    rw [if_pos hfits] at hnext
    rw [List.flatMap_cons, List.append_assoc, recordsOnto_of_next hnext,
      recordsOnto_of_readable (e.aheadAfter_le hn) hentries]
    simp [aheadAfter]

theorem parse_blocksMark (rest : Bytes) :
    ClassicHeader.parse (blocksMark ++ rest) = .error .notRecognized := by
  have hfield : Bytes.field (blocksMark ++ rest) 0 4 = blocksMark := rfl
  have hmagic : ClassicHeader.ofMagic? (Bytes.littleEndian blocksMark) = none := by decide
  simp only [ClassicHeader.parse, hfield, hmagic]

theorem has_blocksMark (header : GlobalHeader) (left : Bytes) :
    (header.bytes ++ left).has 0 blocksMark = false := by
  have hparse := header.parse_append left
  rw [Bool.eq_false_iff]
  intro h
  rw [Bytes.has, List.drop_zero, List.isPrefixOf_iff_prefix] at h
  obtain ⟨rest, hrest⟩ := h
  rw [← hrest, parse_blocksMark] at hparse
  cases hparse

theorem openClassic_append (header : GlobalHeader) (left : Bytes) :
    openClassic (header.bytes ++ left) =
      .ok (.classic header.header (Window.ahead aheadAtFirst left)) := by
  have hlength := header.length_bytes
  have hbuffered : (header.bytes ++ left).take windowSize =
      header.bytes ++ left.take aheadAtFirst := by
    rw [List.take_append, List.take_of_length_le (by rw [hlength]; decide), hlength]
    rfl
  have hunread : (header.bytes ++ left).drop windowSize = left.drop aheadAtFirst := by
    rw [List.drop_append, List.drop_of_length_le (by rw [hlength]; decide), hlength,
      List.nil_append]
    rfl
  have hdrop : (header.bytes ++ left.take aheadAtFirst).drop classicHeaderSize =
      left.take aheadAtFirst :=
    List.drop_left' hlength
  simp only [openClassic, Window.start, hbuffered, hunread, header.parse_append, hdrop]
  rfl

theorem ofFile_append (header : GlobalHeader) (left : Bytes) : ofFile (header.bytes ++ left) =
    .ok (.classic header.header (Window.ahead aheadAtFirst left)) := by
  have hlong : (header.bytes ++ left).longerThan 3 = true :=
    Bytes.longerThan_of_lt (by rw [List.length_append, header.length_bytes]; omega)
  rw [ofFile, if_neg (by simp [hlong]), if_neg (by simp [has_blocksMark]), openClassic_append]

theorem ofFile_bytes_append (left : Bytes) :
    ofFile (head.bytes ++ left) = .ok (ahead head aheadAtFirst left) :=
  ofFile_append head.written left

end Reader

theorem readable_of_lt : ∀ {n : Nat} {entries : List Entry},
    (∀ e ∈ entries, e.size < windowSize) → Readable n entries
  | _, [], _ => trivial
  | _, e :: _, h =>
    ⟨.inr (.inr (h e List.mem_cons_self)),
      readable_of_lt fun e' he' => h e' (List.mem_cons_of_mem _ he')⟩

theorem exists_not_fits : ∀ {n : Nat} {entries : List Entry}, ¬Readable n entries →
    ∃ before e after, entries = before ++ e :: after ∧ Readable n before ∧
      ¬e.Fits (aheadAfter n before)
  | _, [], h => absurd trivial h
  | n, e :: entries, h => by
    by_cases hfits : e.Fits n
    · obtain ⟨before, e', after, rfl, hbefore, hfits'⟩ :=
        exists_not_fits fun hentries => h ⟨hfits, hentries⟩
      exact ⟨e :: before, e', after, rfl, ⟨hfits, hbefore⟩, hfits'⟩
    · exact ⟨[], e, entries, rfl, trivial, hfits⟩

section Whole

variable (head : FileHead) {before after : List Entry} {e : Entry} {k : Nat}

theorem aheadAfter_le : ∀ {n : Nat} (entries : List Entry), n ≤ windowSize →
    aheadAfter n entries ≤ windowSize
  | _, [], hn => hn
  | _, e :: entries, hn => aheadAfter_le entries (e.aheadAfter_le hn)

theorem length_flatMap_bytes (order : ByteOrder) (entries : List Entry) :
    (entries.flatMap (·.bytes order)).length = (entries.map Entry.size).sum := by
  simp only [List.length_flatMap, Entry.length_bytes]

/-- The bytes of a file that is cut off inside a record. -/
theorem take_fileBytes (hk : k ≤ e.size) :
    (fileBytes head (before ++ e :: after)).take (24 + (before.map Entry.size).sum + k) =
      head.bytes ++ (before.flatMap (·.bytes head.order) ++ (e.bytes head.order).take k) := by
  have hfile : fileBytes head (before ++ e :: after) =
      (head.bytes ++ before.flatMap (·.bytes head.order)) ++
        (e.bytes head.order ++ after.flatMap (·.bytes head.order)) := by
    simp [fileBytes]
  have hlength : (head.bytes ++ before.flatMap (·.bytes head.order)).length =
      24 + (before.map Entry.size).sum := by
    rw [List.length_append, head.length_bytes, length_flatMap_bytes]
  have hcut : (e.bytes head.order ++ after.flatMap (·.bytes head.order)).take k =
      (e.bytes head.order).take k :=
    List.take_append_of_le_length (by rwa [e.length_bytes])
  rw [hfile, ← hlength, List.take_length_add_append, hcut, List.append_assoc]

theorem records_of_readable (left : Bytes) (hbefore : Readable aheadAtFirst before) :
    (Reader.ahead head aheadAtFirst (before.flatMap (·.bytes head.order) ++ left)).records =
      Reader.recordsOnto (before.map (·.record head)).reverse
        (Reader.ahead head (aheadAfter aheadAtFirst before) left) := by
  rw [Reader.records, Reader.recordsOnto_of_readable head aheadAtFirst_le hbefore, List.append_nil]

end Whole

/-- Every record that is written is read back, unless a record fills the window and is reached with
its header in the window, but not with all of its data: it is refused then, and the reading ends
with a fault. Where the file is cut off inside a record, all records before it are read, and then
the reading ends with a fault. -/
theorem written_read_back (head : FileHead) (entries : List Entry) :
    (∃ reader, Reader.ofFile (fileBytes head entries) = .ok reader ∧
      (Readable aheadAtFirst entries → reader.records = (entries.map (·.record head), none)) ∧
      (¬Readable aheadAtFirst entries → ∃ before e after, entries = before ++ e :: after ∧
        e.size = windowSize ∧ reader.records =
          (before.map (·.record head), some (.unreadable .classic .reading .windowTooSmall)))) ∧
    ((∀ e ∈ entries, e.size < windowSize) → Readable aheadAtFirst entries) ∧
    ∀ before e after k, entries = before ++ e :: after → Readable aheadAtFirst before →
      0 < k → k < e.size →
        ∃ reader, Reader.ofFile ((fileBytes head entries).take
            (24 + (before.map Entry.size).sum + k)) = .ok reader ∧
          reader.records = (before.map (·.record head),
            some (.unreadable .classic .reading (e.cutCause k))) := by
  refine ⟨⟨_, Reader.ofFile_bytes_append head _, fun hreadable => ?_, fun hunreadable => ?_⟩,
    readable_of_lt, fun before e after k hentries hbefore hpos hk => ?_⟩
  · have hrecords := records_of_readable head [] hreadable
    rw [List.append_nil, Reader.recordsOnto_of_end (Reader.next_nil head),
      List.reverse_reverse] at hrecords
    exact hrecords
  · obtain ⟨before, e, after, rfl, hbefore, hfits⟩ := exists_not_fits hunreadable
    have hsize : e.size ≤ windowSize := e.fits
    have hnext := Reader.next_bytes_append head e (after.flatMap (·.bytes head.order))
      (aheadAfter_le before aheadAtFirst_le)
    rw [if_neg hfits] at hnext
    refine ⟨before, e, after, rfl, ?_, ?_⟩
    · unfold Entry.Fits at hfits
      omega
    · rw [List.flatMap_append, List.flatMap_cons, records_of_readable head _ hbefore,
        Reader.recordsOnto_of_error hnext, List.reverse_reverse]
  · subst hentries
    refine ⟨_, (congrArg _ (take_fileBytes head (Nat.le_of_lt hk))).trans
      (Reader.ofFile_bytes_append head _), ?_⟩
    have hnext := Reader.next_take head e hpos hk (aheadAfter_le before aheadAtFirst_le)
    rw [records_of_readable head _ hbefore, Reader.recordsOnto_of_error hnext,
      List.reverse_reverse]

/-- A record of zeros. -/
def Entry.zeros (n : Nat) (h : 16 + n ≤ windowSize) : Entry where
  seconds := 0
  fraction := 0
  data := List.replicate n 0
  wireLength := UInt32.ofNat n
  fits := by rwa [List.length_replicate]

theorem Entry.size_zeros {n : Nat} (h : 16 + n ≤ windowSize) : (zeros n h).size = 16 + n := by
  rw [size, zeros, List.length_replicate]

/-- A record that fills the window is read behind one that leaves 10 bytes of it ahead, and is at
fault where all but its header is cut off. -/
theorem written_read_back_full_window :
    ∃ (head : FileHead) (first second : Entry), second.size = windowSize ∧
      (∃ reader, Reader.ofFile (fileBytes head [first, second]) = .ok reader ∧
        reader.records = ([first.record head, second.record head], none)) ∧
      ∃ reader, Reader.ofFile ((fileBytes head [first, second]).take
          (24 + ([first].map Entry.size).sum + 16)) = .ok reader ∧
        reader.records =
          ([first.record head], some (.unreadable .classic .reading .windowTooSmall)) := by
  let head : FileHead := ⟨.big, .nano, List.replicate 16 0, 101, rfl⟩
  let first : Entry := .zeros 65486 (by decide)
  let second : Entry := .zeros 65520 (by decide)
  have hfirst : first.size = 65502 := Entry.size_zeros _
  have hsecond : second.size = windowSize := Entry.size_zeros _
  have hreadable : Readable aheadAtFirst [first, second] := by
    simp only [Readable, Entry.Fits, Entry.aheadAfter, hfirst, hsecond]
    decide
  obtain ⟨⟨reader, hfile, hall, -⟩, -, hcut⟩ := written_read_back head [first, second]
  refine ⟨head, first, second, hsecond, ⟨reader, hfile, hall hreadable⟩, ?_⟩
  have hcause : second.cutCause 16 = .windowTooSmall := if_pos ⟨hsecond, Nat.le_refl _⟩
  rw [← hcause]
  exact hcut [first] second [] 16 rfl ⟨hreadable.1, trivial⟩ (by decide)
    (by rw [hsecond]; decide)

/-- Such a record is refused where it is the first one. -/
theorem full_window_refused :
    let head : FileHead := ⟨.little, .micro, List.replicate 16 0, 1, rfl⟩
    let e : Entry := .zeros 65520 (by decide)
    e.size = windowSize ∧ ∃ reader, Reader.ofFile (fileBytes head [e]) = .ok reader ∧
      reader.records = ([], some (.unreadable .classic .reading .windowTooSmall)) := by
  intro head e
  have hsize : e.size = windowSize := Entry.size_zeros _
  have hfits : ¬e.Fits aheadAtFirst := by
    unfold Entry.Fits
    rw [hsize]
    decide
  have hnext := Reader.next_bytes_append head e [] aheadAtFirst_le
  rw [if_neg hfits] at hnext
  exact ⟨hsize, _, Reader.ofFile_bytes_append head _, Reader.recordsOnto_of_error hnext⟩

end Trawl.CaptureFile
