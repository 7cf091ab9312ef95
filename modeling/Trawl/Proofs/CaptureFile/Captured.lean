import Trawl.Proofs.CaptureFile.Interfaces
import Trawl.Proofs.Pipeline.Sequential

/-!
# What is captured of a file

Records are cut to the snapshot length after they have been read, and they are read through a window
of fixed size. So a long record is cut as long as it has room in the window; where a record or a
block is larger than the window, the file is read up to there, and the capture ends with a fault
(`captured_up_to_window`).
-/

namespace Trawl

namespace CaptureFile

/-! ## Section headers -/

namespace Block

variable {order order' : ByteOrder} {kind : Nat} {body : BlockBody} {b rest rest' : Bytes}

theorem interpret_ne_sectionHeader :
    interpret order kind body rest ≠ .block (.sectionHeader order') rest' := by
  intro h
  simp only [interpret] at h
  repeat' split at h
  all_goals simp at h

/-- A section header is told by its kind, and reads the same in both byte orders. -/
theorem parseSection_of_parse (h : parse order b = .block (.sectionHeader order') rest) :
    order.read (b.field 0 4) = kindSection ∧
      parseSection b = .block (.sectionHeader order') rest := by
  obtain ⟨-, h⟩ := parse_cases h
  split at h
  · exact ⟨‹_›, h⟩
  · obtain ⟨body, -, h⟩ := h
    exact absurd h interpret_ne_sectionHeader

theorem has_blocksMark (h : parse .little b = .block (.sectionHeader order') rest) :
    b.has 0 Reader.blocksMark = true := by
  have hlength := (parse_cases h).1
  have hkind : (b.field 0 4).littleEndian = Bytes.littleEndian Reader.blocksMark :=
    (parseSection_of_parse h).1
  have hfield : (b.field 0 4).length = 4 := by
    rw [Bytes.field, List.length_take, List.length_drop]
    omega
  have hmark : b.take 4 = Reader.blocksMark := Bytes.eq_of_littleEndian hfield hkind
  rw [Bytes.has, List.isPrefixOf_iff_prefix, ← hmark]
  exact List.take_prefix 4 b

end Block

namespace Reader

theorem recordsOnto_classic (header : ClassicHeader) (w : Window) (done : List Record) :
    recordsOnto done (classic header w) = (done.reverse ++ (header.layout.drain () w).1,
      (header.layout.drain () w).2.map (.unreadable .classic .reading)) := by
  cases hfetch : w.fetch header.recordParser with
  | error cause =>
    have hnext : (classic header w).next = .error (.unreadable .classic .reading cause) := by
      simp only [next, hfetch]
    rw [recordsOnto_of_error hnext, Layout.drain_of_error (l := header.layout) hfetch]
    simp
  | ok found =>
    cases found with
    | none =>
      have hnext : (classic header w).next = .ok none := by
        simp only [next, hfetch]
      rw [recordsOnto_of_end hnext, Layout.drain_of_end (l := header.layout) hfetch]
      simp
    | some found =>
      obtain ⟨record, w'⟩ := found
      have hnext : (classic header w).next = .ok (some (record, classic header w')) := by
        simp only [next, hfetch]
      have hsize := Window.size_fetch _ _ hfetch
      rw [recordsOnto_of_next hnext, recordsOnto_classic header w' (record :: done),
        Layout.drain_of_value (l := header.layout) (s := ()) hfetch]
      simp [ClassicHeader.layout]
termination_by w.size

theorem ofFile_bytesOf {first : Piece Block} {order : ByteOrder} (more : List (Piece Block))
    (h : Block.parse .little first.bytes = .block (.sectionHeader order) []) :
    ofFile (Piece.bytesOf (first :: more)) =
      if windowSize < first.bytes.length then .error (.unreadable .blocks .opening .incomplete)
      else .ok (.blocks .start (.start (Piece.bytesOf (first :: more)))) := by
  obtain ⟨-, hsection⟩ := Block.parseSection_of_parse h
  have hlength := (Block.parse_cases h).1
  have hbytes : Piece.bytesOf (first :: more) = first.bytes ++ Piece.bytesOf more := by
    rw [Piece.bytesOf, List.flatMap_cons, Piece.bytesOf]
  have hlong : (first.bytes ++ Piece.bytesOf more).longerThan 3 = true :=
    Bytes.longerThan_of_lt (by rw [List.length_append]; omega)
  have hmark : (first.bytes ++ Piece.bytesOf more).has 0 blocksMark = true := by
    have := Block.has_blocksMark h
    rw [Bytes.has, List.drop_zero, List.isPrefixOf_iff_prefix] at this ⊢
    exact this.trans (List.prefix_append ..)
  rw [hbytes, ofFile, if_neg (by simp [hlong]), if_pos hmark, openBlocks]
  by_cases hsize : windowSize < first.bytes.length
  · have hbuffered : (Window.start (first.bytes ++ Piece.bytesOf more)).buffered =
        first.bytes.take windowSize :=
      List.take_append_of_le_length (Nat.le_of_lt hsize)
    simp only [hbuffered, Block.parseSection_take hsection hsize, if_pos hsize]
  · have hbuffered : (Window.start (first.bytes ++ Piece.bytesOf more)).buffered =
        first.bytes ++ (Piece.bytesOf more).take (windowSize - first.bytes.length) := by
      rw [Window.start, List.take_append, List.take_of_length_le (by omega)]
    simp only [hbuffered, Block.parseSection_append hsection, if_neg hsize]

end Reader

/-! ## Whole files -/

/-- A well-formed capture file: a global header and records, or blocks of which the first is a
section header. Each of them parses where all of it is in view. -/
inductive WholeFile where
  | classic (head : GlobalHeader) (records : List (Piece Record))
      (wellFormed : head.header.layout.WellFormed () records)
  | blocks (first : Piece Block) (more : List (Piece Block)) (order : ByteOrder)
      (starts : first.value = .sectionHeader order)
      (wellFormed : Block.layout.WellFormed .little (first :: more))

namespace WholeFile

def bytes : WholeFile → Bytes
  | .classic head records _ => head.bytes ++ Piece.bytesOf records
  | .blocks first more .. => Piece.bytesOf (first :: more)

/-- The sizes of the records or blocks of a file. -/
def sizes : WholeFile → List Nat
  | .classic _ records _ => records.map (·.bytes.length)
  | .blocks first more .. => (first :: more).map (·.bytes.length)

/-- The records of a file up to some record or block. -/
def recordsUpTo (count : Nat) : WholeFile → List Record
  | .classic _ records _ => (records.take count).map Piece.value
  | .blocks first more .. => Block.records (((first :: more).take count).map Piece.value)

/-- All records of a file, whatever their size. -/
def records (file : WholeFile) : List Record :=
  file.recordsUpTo file.sizes.length

/-- How many records or blocks of a file are read. -/
def readCount : WholeFile → Nat
  | .classic head records _ => head.header.layout.readCount () aheadAtFirst records
  | .blocks first more .. => Block.layout.readCount .little windowSize (first :: more)

/-- The fault at the first record or block that is not read. The first section header is already
needed to open the file. -/
def faultBehind : WholeFile → Fault
  | .classic .. => .unreadable .classic .reading .windowTooSmall
  | .blocks first .. =>
    if windowSize < first.bytes.length then .unreadable .blocks .opening .incomplete
    else .unreadable .blocks .reading .windowTooSmall

/-- The fault that ends the reading, unless everything is read. -/
def fault? (file : WholeFile) : Option Fault :=
  if file.readCount = file.sizes.length then none else some file.faultBehind

/-- Either way, a file is a row of pieces in a layout. -/
theorem exists_pieces (file : WholeFile) : ∃ (σ α : Type) (l : Layout σ α) (s : σ) (n : Nat)
    (pieces : List (Piece α)), l.WellFormed s pieces ∧ n ≤ windowSize ∧
      file.sizes = pieces.map (·.bytes.length) ∧ file.readCount = l.readCount s n pieces := by
  cases file with
  | classic head records wellFormed =>
    exact ⟨_, _, head.header.layout, (), _, records, wellFormed, aheadAtFirst_le, rfl, rfl⟩
  | blocks first more order starts wellFormed =>
    exact ⟨_, _, Block.layout, .little, _, first :: more, wellFormed, Nat.le_refl _, rfl, rfl⟩

variable {file : WholeFile} {size : Nat}

theorem readCount_of_lt (h : ∀ size ∈ file.sizes, size < windowSize) :
    file.readCount = file.sizes.length := by
  obtain ⟨_, _, l, s, n, pieces, hpieces, -, hsizes, hcount⟩ := file.exists_pieces
  rw [hsizes] at h ⊢
  rw [hcount, List.length_map]
  exact Layout.readCount_of_lt hpieces (List.forall_mem_map.1 h)

theorem readCount_lt_of_mem (hmem : size ∈ file.sizes) (h : windowSize < size) :
    file.readCount < file.sizes.length := by
  obtain ⟨_, _, l, s, n, pieces, -, hn, hsizes, hcount⟩ := file.exists_pieces
  rw [hsizes] at hmem ⊢
  obtain ⟨piece, hpiece, rfl⟩ := List.mem_map.1 hmem
  rw [hcount, List.length_map]
  exact Layout.readCount_lt_of_mem h hn hpiece

theorem windowSize_le_of_unread (h : file.sizes[file.readCount]? = some size) :
    windowSize ≤ size := by
  obtain ⟨_, _, l, s, n, pieces, hpieces, -, hsizes, hcount⟩ := file.exists_pieces
  rw [hsizes, hcount, List.getElem?_map, Option.map_eq_some_iff] at h
  obtain ⟨piece, hpiece, rfl⟩ := h
  exact Layout.windowSize_le_length hpieces hpiece

end WholeFile

/-- A file that can be read through the window gives the records that it was written from. -/
theorem ofFile_fileBytes (head : FileHead) {entries : List Entry}
    (h : Readable aheadAtFirst entries) : Script.ofFile (fileBytes head entries) =
      .ok ⟨(entries.map (·.record head)).map .record, none⟩ := by
  have hrecords := records_of_readable head [] h
  rw [List.append_nil, Reader.recordsOnto_of_end (Reader.next_nil head),
    List.reverse_reverse] at hrecords
  rw [Script.ofFile, fileBytes, Reader.ofFile_bytes_append]
  dsimp only
  rw [hrecords]
  rfl

end CaptureFile

namespace Capture

/-- What a capture keeps of each record of a file, and the fault that ends it. -/
def keptOf (machine : Machine) (settings : Settings) (file : Bytes) :
    List Bytes × Option SourceFault :=
  match Script.ofFile file with
  | .error fault => ([], some fault)
  | .ok script =>
    ((run machine settings script).frames.reverse.map (·.record.data), script.fault)

theorem frames_run_records (machine : Machine) (settings : Settings) (records : List Record)
    (fault : Option SourceFault) :
    (run machine settings ⟨records.map .record, fault⟩).frames.reverse =
      records.map fun r => .decode (r.clamp settings.snapshotLength) := by
  have hrecords : Script.records ⟨records.map .record, fault⟩ = records := by
    simp [Script.records]
  rw [frames_run, framesOf, hrecords]

theorem keptOf_of_error {machine : Machine} {settings : Settings} {file : Bytes}
    {fault : CaptureFile.Fault} (h : CaptureFile.Reader.ofFile file = .error fault) :
    keptOf machine settings file = ([], some (.captureFile fault)) := by
  simp only [keptOf, Script.ofFile, h]

theorem keptOf_of_ok {machine : Machine} {settings : Settings} {file : Bytes}
    {reader : CaptureFile.Reader} (h : CaptureFile.Reader.ofFile file = .ok reader) :
    keptOf machine settings file = (reader.records.1.map (·.data.take settings.snapshotLength),
      reader.records.2.map .captureFile) := by
  simp only [keptOf, Script.ofFile, h, frames_run_records, List.map_map]
  rfl

open CaptureFile

theorem keptOf_bytes (machine : Machine) (settings : Settings) (file : WholeFile) :
    keptOf machine settings file.bytes =
      ((file.recordsUpTo file.readCount).map (·.data.take settings.snapshotLength),
        file.fault?.map .captureFile) := by
  cases file with
  | classic head records wellFormed =>
    rw [WholeFile.bytes, keptOf_of_ok (Reader.ofFile_append head _), Reader.records,
      Reader.recordsOnto_classic, Layout.drain_bytesOf wellFormed aheadAtFirst_le]
    simp only [WholeFile.recordsUpTo, WholeFile.readCount, WholeFile.fault?, WholeFile.sizes,
      List.length_map, WholeFile.faultBehind]
    split <;> rfl
  | blocks first more order starts wellFormed =>
    have hopen := Reader.ofFile_bytesOf more (starts ▸ wellFormed.1)
    by_cases hsize : windowSize < first.bytes.length
    · rw [if_pos hsize] at hopen
      have hfits : ¬Block.layout.Fits .little windowSize first := fun hfits =>
        Nat.not_le.2 hsize (hfits.length_le (Nat.le_refl _))
      rw [WholeFile.bytes, keptOf_of_error hopen]
      simp [WholeFile.recordsUpTo, WholeFile.readCount, WholeFile.fault?, WholeFile.sizes,
        WholeFile.faultBehind, Layout.readCount, hfits, hsize, Block.records]
    · rw [if_neg hsize] at hopen
      have hdrain := Layout.drain_bytesOf wellFormed (Nat.le_refl windowSize)
      rw [WholeFile.bytes, keptOf_of_ok hopen, Reader.records_blocks, Window.start,
        ← Window.ahead, hdrain]
      simp only [WholeFile.recordsUpTo, WholeFile.readCount, WholeFile.fault?, WholeFile.sizes,
        List.length_map, WholeFile.faultBehind, if_neg hsize]
      split <;> rfl

end Capture

namespace CaptureFile

/-- Whatever the snapshot length, what is captured of a well-formed file is each of its records, cut
to that length, up to the first record or block that the window has no room for, and the capture
ends with a fault there. So all records are captured, and without a fault, exactly if the window has
room for everything. It has if everything is smaller than the window, and has not if anything is
larger. -/
theorem captured_up_to_window (machine : Machine) (settings : Settings) (file : WholeFile) :
    Capture.keptOf machine settings file.bytes =
        ((file.recordsUpTo file.readCount).map (·.data.take settings.snapshotLength),
          file.fault?.map .captureFile) ∧
      (Capture.keptOf machine settings file.bytes =
          (file.records.map (·.data.take settings.snapshotLength), none) ↔
        file.readCount = file.sizes.length) ∧
      ((∀ size ∈ file.sizes, size < windowSize) → file.readCount = file.sizes.length) ∧
      (∀ size ∈ file.sizes, windowSize < size → file.readCount < file.sizes.length) ∧
      ∀ size, file.sizes[file.readCount]? = some size → windowSize ≤ size := by
  have hkept := Capture.keptOf_bytes machine settings file
  refine ⟨hkept, ?_, WholeFile.readCount_of_lt, fun _ => WholeFile.readCount_lt_of_mem,
    fun _ => WholeFile.windowSize_le_of_unread⟩
  rw [hkept, WholeFile.fault?]
  constructor
  · intro h
    by_contra hcount
    simp [hcount] at h
  · intro hcount
    rw [if_pos hcount, WholeFile.records, hcount]
    rfl

/-- A record of so many zeros. -/
def Piece.zeros (header : ClassicHeader) (n : Nat) : Piece Record :=
  let fields := header.order.words [0, 0, .ofNat n, .ofNat n]
  ⟨fields ++ List.replicate n 0, header.recordOf fields (List.replicate n 0)⟩

theorem Piece.parse_zeros {header : ClassicHeader} {n : Nat} (hsize : header.recordHeaderSize = 16)
    (hn : n < 0x100000000) :
    header.parseRecord (zeros header n).bytes = .block (zeros header n).value [] := by
  have hcaptured : header.order.read
      ((header.order.words [0, 0, .ofNat n, .ofNat n] ++ []).field 8 4) = (UInt32.ofNat n).toNat :=
    header.order.read_word (i := 2) rfl []
  rw [List.append_nil, UInt32.toNat_ofNat', Nat.mod_eq_of_lt hn] at hcaptured
  exact ClassicHeader.parseRecord_fields (by rw [ByteOrder.length_words, hsize]; rfl)
    (by rw [hcaptured, List.length_replicate])

theorem Piece.wellFormed_zeros {header : ClassicHeader} (hsize : header.recordHeaderSize = 16) :
    ∀ {ns : List Nat}, (∀ n ∈ ns, n < 0x100000000) →
      header.layout.WellFormed () (ns.map (zeros header))
  | [], _ => trivial
  | _ :: _, h => by
    obtain ⟨hn, hns⟩ := List.forall_mem_cons.1 h
    exact ⟨parse_zeros hsize hn, wellFormed_zeros hsize hns⟩

theorem WholeFile.length_records_zeros (head : GlobalHeader) (ns : List Nat)
    (h : head.header.layout.WellFormed () (ns.map (Piece.zeros head.header))) :
    (WholeFile.classic head (ns.map (Piece.zeros head.header)) h).records.map (·.data.length) =
      ns := by
  have hlength : ∀ n, (Piece.zeros head.header n).value.data.length = n := fun n =>
    List.length_replicate
  simp [records, recordsUpTo, sizes, Function.comp_def, hlength]

theorem Piece.readCount_zeros {header : ClassicHeader} {ahead n : Nat} (ns : List Nat)
    (hahead : ahead ≤ windowSize) (hn : windowSize ≤ n) :
    header.layout.readCount () ahead ((n :: ns).map (zeros header)) = 0 := by
  have hsize : windowSize < (zeros header n).bytes.length := by
    rw [zeros, List.length_append, List.length_replicate, ByteOrder.length_words, List.length_cons]
    omega
  exact if_neg fun hfits => Nat.not_le.2 hsize (hfits.length_le hahead)

/-- With a snapshot length of 64, a record of 70000 bytes ends the capture, and neither it nor the
one behind it is captured. -/
theorem long_record_ends_capture : ∃ (settings : Settings) (file : WholeFile),
    settings.fault? = none ∧ settings.snapshotLength = 64 ∧
      file.records.map (·.data.length) = [70000, 20] ∧
      Capture.keptOf .steady settings file.bytes =
        ([], some (.captureFile (.unreadable .classic .reading .windowTooSmall))) := by
  let settings : Settings := { snapshotLength := 64 }
  let head : GlobalHeader := FileHead.written ⟨.little, .micro, List.replicate 16 0, 1, rfl⟩
  let file : WholeFile := .classic head ([70000, 20].map (Piece.zeros head.header))
    (Piece.wellFormed_zeros rfl (by decide))
  have hcount : file.readCount = 0 := Piece.readCount_zeros [20] aheadAtFirst_le (by decide)
  refine ⟨settings, file, by decide, rfl, WholeFile.length_records_zeros head _ _, ?_⟩
  rw [Capture.keptOf_bytes, WholeFile.fault?, hcount]
  rfl

end CaptureFile

end Trawl
