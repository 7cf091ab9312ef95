import Trawl.CaptureFile.Classic
import Trawl.CaptureFile.Blocks

/-!
# Reading capture files

A file is opened by its first four bytes and then read record by record. Every record takes up at
least one byte of the file (`size_next`), so reading all of them ends.
-/

namespace Trawl.CaptureFile

/-- The two formats of capture files. -/
inductive Format where
  | classic
  | blocks
  deriving DecidableEq, Repr

/-- What was being done when a file turned out to be unreadable. -/
inductive Activity where
  | opening
  | reading
  deriving DecidableEq, Repr

/-- Why a capture file is not read, or not read on. -/
inductive Fault where
  /-- The file is too short to tell its format. -/
  | tooShort
  | unreadable (format : Format) (activity : Activity) (cause : Cause)
  deriving DecidableEq, Repr

/-- The name of a format in messages. -/
def Format.name : Format → String
  | .classic => "pcap"
  | .blocks => "pcapng"

/-- The name of an activity in messages. -/
def Activity.name : Activity → String
  | .opening => "init"
  | .reading => "next"

/-- Where an unreadable file was found to be so. -/
def context (format : Format) (activity : Activity) : String :=
  format.name ++ " reader " ++ activity.name

/-- A capture file being read. -/
inductive Reader where
  | classic (header : ClassicHeader) (window : Window)
  | blocks (described : Section) (window : Window)
  deriving DecidableEq, Repr

namespace Reader

/-- The bytes that tell a file of blocks: the kind of a section header. -/
def blocksMark : Bytes := [0x0A, 0x0D, 0x0D, 0x0A]

/-- The size of the global header of a classic file. -/
def classicHeaderSize : Nat := 24

/-- Opens a file that starts with a global header. -/
def openClassic (file : Bytes) : Except Fault Reader :=
  let window := Window.start file
  match ClassicHeader.parse window.buffered with
  | .error cause => .error (.unreadable .classic .opening cause)
  | .ok header =>
    .ok (.classic header { window with buffered := window.buffered.drop classicHeaderSize })

/-- Opens a file that starts with a section header. The header is read again as the first block. -/
def openBlocks (file : Bytes) : Except Fault Reader :=
  let window := Window.start file
  match Block.parseSection window.buffered with
  | .block _ _ => .ok (.blocks Section.start window)
  | .missing _ => .error (.unreadable .blocks .opening .incomplete)
  | .refused cause => .error (.unreadable .blocks .opening cause)

/-- Opens a capture file. -/
def ofFile (file : Bytes) : Except Fault Reader :=
  if !file.longerThan 3 then .error .tooShort
  else if file.has 0 blocksMark then openBlocks file
  else openClassic file

/-- How many bytes of the file are left. -/
def size : Reader → Nat
  | .classic _ window => window.size
  | .blocks _ window => window.size

/-- Reads blocks until one is a packet. -/
def nextPacket (described : Section) (window : Window) :
    Except Cause (Option (Record × Section × Window)) :=
  match _h : window.fetch (Block.parser described.order) with
  | .error cause => .error cause
  | .ok none => .ok none
  | .ok (some (block, window')) =>
    match described.take block with
    | (described', some record) => .ok (some (record, described', window'))
    | (described', none) => nextPacket described' window'
termination_by window.size
decreasing_by exact Window.size_fetch _ _ _h

/-- The next record, or nothing at the end of the file. -/
def next : Reader → Except Fault (Option (Record × Reader))
  | .classic header window =>
    match window.fetch header.recordParser with
    | .error cause => .error (.unreadable .classic .reading cause)
    | .ok none => .ok none
    | .ok (some (record, window')) => .ok (some (record, .classic header window'))
  | .blocks described window =>
    match nextPacket described window with
    | .error cause => .error (.unreadable .blocks .reading cause)
    | .ok none => .ok none
    | .ok (some (record, described', window')) =>
      .ok (some (record, .blocks described' window'))

theorem size_nextPacket (described : Section) (window : Window) {record : Record}
    {described' : Section} {window' : Window}
    (h : nextPacket described window = .ok (some (record, described', window'))) :
    window'.size < window.size := by
  fun_induction nextPacket described window with
  | case1 => simp at h
  | case2 => simp at h
  | case3 described window block w hf d r hd =>
    simp only [Except.ok.injEq, Option.some.injEq, Prod.mk.injEq] at h
    obtain ⟨-, -, rfl⟩ := h
    exact Window.size_fetch _ _ hf
  | case4 described window block w hf d hd ih =>
    exact Nat.lt_trans (ih h) (Window.size_fetch _ _ hf)

theorem size_next {reader reader' : Reader} {record : Record}
    (h : reader.next = .ok (some (record, reader'))) : reader'.size < reader.size := by
  cases reader with
  | classic header window =>
    simp only [next] at h
    split at h <;> simp only [reduceCtorEq, Except.ok.injEq, Option.some.injEq, Prod.mk.injEq] at h
    rename_i hf
    obtain ⟨-, rfl⟩ := h
    exact Window.size_fetch _ _ hf
  | blocks described window =>
    simp only [next] at h
    split at h <;> simp only [reduceCtorEq, Except.ok.injEq, Option.some.injEq, Prod.mk.injEq] at h
    rename_i hp
    obtain ⟨-, rfl⟩ := h
    exact size_nextPacket _ _ hp

/-- The records read so far, last first, then the others, with the fault that ended the reading. -/
def recordsOnto (done : List Record) (reader : Reader) : List Record × Option Fault :=
  match _h : reader.next with
  | .error fault => (done.reverse, some fault)
  | .ok none => (done.reverse, none)
  | .ok (some (record, reader')) => recordsOnto (record :: done) reader'
termination_by reader.size
decreasing_by exact size_next _h

/-- All records up to the end of the file or the fault that ends the reading. -/
def records (reader : Reader) : List Record × Option Fault :=
  recordsOnto [] reader

end Reader

end Trawl.CaptureFile
