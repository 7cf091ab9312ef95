import Mathlib.Data.List.DropRight
import Trawl.Proofs.CaptureFile.Layouts
import Trawl.Proofs.CaptureFile.Reading

/-!
# Interfaces and their sections

What the blocks of a file come to is said without a state here: the record of a packet is read off
the blocks before it (`Block.recordAfter`), of which only the interfaces count that were described
since the last section header. The state that is kept while blocks are read holds just those
(`Section.describes_take`), so that the records of any file are those of its blocks
(`records_by_section`).
-/

namespace Trawl.CaptureFile

namespace Block

/-- Whether a block starts a section. -/
def isSectionHeader : Block → Bool
  | .sectionHeader _ => true
  | _ => false

/-- The link type that a block describes an interface to have. -/
def linkType? : Block → Option Nat
  | .interface linkType _ _ => some linkType
  | _ => none

/-- The blocks behind the last section header. -/
def currentSection (before : List Block) : List Block :=
  before.rtakeWhile (!·.isSectionHeader)

/-- The link type of an interface of the current section, Ethernet where it was not described. The
interfaces of a section are numbered from 0 in the order of their descriptions. -/
def linkTypeAfter (before : List Block) (number : Nat) : Int :=
  match ((currentSection before).filterMap linkType?)[number]? with
  | some linkType => linkType
  | none => linkEthernet

/-- The record of a block that is a packet, given the blocks before it. -/
def recordAfter (before : List Block) : Block → Option Record
  | .enhancedPacket number ticks capturedLength wireLength data => some {
      time := some (.counted 0 ticks .micro)
      linkType := linkTypeAfter before number.toNat
      data := data.take capturedLength.toNat
      wireLength
      interface := number }
  | .simplePacket wireLength data => some {
      time := none
      linkType := linkTypeAfter before 0
      data := data.take wireLength.toNat
      wireLength
      interface := 0 }
  | _ => none

/-- The records of the packets among some blocks. -/
def records (blocks : List Block) : List Record :=
  blocks.zipIdx.filterMap fun (block, i) => block.recordAfter (blocks.take i)

end Block

namespace Section

/-- The records of blocks that are read in a section. -/
def packets (s : Section) : List Block → List Record
  | [] => []
  | block :: blocks => (s.take block).2.toList ++ packets (s.take block).1 blocks

/-- Whether a section holds what some blocks say. -/
def Describes (s : Section) (before : List Block) : Prop :=
  s.linkTypes = (Block.currentSection before).filterMap Block.linkType?

variable {s : Section} {before : List Block}

theorem describes_start : start.Describes [] :=
  rfl

theorem Describes.linkTypeOf (h : s.Describes before) (number : Nat) :
    s.linkTypeOf number = Block.linkTypeAfter before number := by
  rw [Section.linkTypeOf, h]
  rfl

/-- A section header makes the interfaces start over, an interface is added to them, and any other
block leaves them as they are. -/
theorem describes_take (h : s.Describes before) (block : Block) :
    (s.take block).1.Describes (before ++ [block]) := by
  unfold Describes at h ⊢
  cases block with
  | sectionHeader order => simp [take, Block.currentSection, Block.isSectionHeader]
  | interface linkType snapLength options =>
    simp [take, Block.currentSection, Block.isSectionHeader, Block.linkType?, h]
  | enhancedPacket | simplePacket | other =>
    simp [take, Block.currentSection, Block.isSectionHeader, Block.linkType?, h]

theorem record_take (h : s.Describes before) (block : Block) :
    (s.take block).2 = block.recordAfter before := by
  cases block <;> simp [take, Block.recordAfter, h.linkTypeOf]

theorem order_take (s : Section) (block : Block) :
    (s.take block).1.order = block.orderAfter s.order := by
  cases block <;> rfl

theorem packets_eq : ∀ {s : Section} {before : List Block}, s.Describes before →
    ∀ blocks : List Block, s.packets blocks =
      (blocks.zipIdx before.length).filterMap fun (block, i) =>
        block.recordAfter ((before ++ blocks).take i)
  | _, _, _, [] => rfl
  | s, before, h, block :: blocks => by
    have hmore := packets_eq (describes_take h block) blocks
    rw [List.length_append, List.length_singleton, List.append_assoc, List.singleton_append]
      at hmore
    rw [packets, record_take h, hmore, List.zipIdx_cons, List.filterMap_cons]
    simp only [List.take_left]
    cases block.recordAfter before <;> rfl

theorem packets_start (blocks : List Block) : start.packets blocks = Block.records blocks :=
  packets_eq describes_start blocks

theorem packets_append (s : Section) (before after : List Block) : s.packets (before ++ after) =
    s.packets before ++ (before.foldl (fun s block => (s.take block).1) s).packets after := by
  induction before generalizing s with
  | nil => rfl
  | cons block before ih => simp [packets, ih]

theorem describes_foldl : ∀ {s : Section} {before : List Block}, s.Describes before →
    ∀ blocks : List Block,
      (blocks.foldl (fun s block => (s.take block).1) s).Describes (before ++ blocks)
  | _, before, h, [] => by rwa [List.append_nil]
  | _, before, h, block :: blocks => by
    have hmore := describes_foldl (describes_take h block) blocks
    rwa [List.append_assoc, List.singleton_append] at hmore

end Section

/-- The record of a packet stands behind those of the packets before it. -/
theorem Block.records_append_cons (before : List Block) (block : Block) (after : List Block) :
    ∃ later, Block.records (before ++ block :: after) =
      Block.records before ++ ((block.recordAfter before).toList ++ later) := by
  have hdescribes := Section.describes_foldl Section.describes_start before
  rw [← Section.packets_start, ← Section.packets_start, Section.packets_append, Section.packets,
    Section.record_take hdescribes]
  exact ⟨_, rfl⟩

/-- Blocks that are no packets and belong to no section as such do not matter. -/
theorem Block.records_append_other (before after : List Block) (kind : Nat) :
    Block.records (before ++ .other kind :: after) = Block.records (before ++ after) := by
  simp only [← Section.packets_start, Section.packets_append, Section.packets, Section.take,
    Option.toList_none, List.nil_append]

namespace Reader

theorem recordsOnto_congr {done : List Record} {reader reader' : Reader}
    (h : reader.next = reader'.next) : recordsOnto done reader = recordsOnto done reader' := by
  cases hnext : reader'.next with
  | error fault =>
    rw [recordsOnto_of_error (h.trans hnext), recordsOnto_of_error hnext]
  | ok found =>
    cases found with
    | none => rw [recordsOnto_of_end (h.trans hnext), recordsOnto_of_end hnext]
    | some found => rw [recordsOnto_of_next (h.trans hnext), recordsOnto_of_next hnext]

section Blocks

variable {s : Section} {w w' : Window}

theorem next_of_error {cause : Cause} (h : w.fetch (Block.parser s.order) = .error cause) :
    (blocks s w).next = .error (.unreadable .blocks .reading cause) := by
  have hpacket : nextPacket s w = .error cause := by
    rw [nextPacket]
    split <;> rename_i hfetch <;> rw [h] at hfetch <;> cases hfetch
    rfl
  simp only [next, hpacket]

theorem next_of_end (h : w.fetch (Block.parser s.order) = .ok none) :
    (blocks s w).next = .ok none := by
  have hpacket : nextPacket s w = .ok none := by
    rw [nextPacket]
    split <;> rename_i hfetch <;> rw [h] at hfetch <;> cases hfetch
  simp only [next, hpacket]

theorem next_of_block {block : Block}
    (h : w.fetch (Block.parser s.order) = .ok (some (block, w'))) :
    (blocks s w).next = match (s.take block).2 with
      | some record => .ok (some (record, blocks (s.take block).1 w'))
      | none => (blocks (s.take block).1 w').next := by
  have hpacket : nextPacket s w = match (s.take block).2 with
      | some record => .ok (some (record, (s.take block).1, w'))
      | none => nextPacket (s.take block).1 w' := by
    rw [nextPacket]
    split <;> rename_i hfetch <;> rw [h] at hfetch <;> cases hfetch
    split <;> rename_i htake <;> rw [htake]
  simp only [next, hpacket]
  cases (s.take block).2 <;> rfl

theorem recordsOnto_blocks (s : Section) (w : Window) (done : List Record) :
    recordsOnto done (blocks s w) =
      (done.reverse ++ s.packets (Block.layout.drain s.order w).1,
        (Block.layout.drain s.order w).2.map (.unreadable .blocks .reading)) := by
  cases hfetch : w.fetch (Block.parser s.order) with
  | error cause =>
    rw [recordsOnto_of_error (next_of_error hfetch),
      Layout.drain_of_error (l := Block.layout) hfetch]
    simp [Section.packets]
  | ok found =>
    cases found with
    | none =>
      rw [recordsOnto_of_end (next_of_end hfetch), Layout.drain_of_end (l := Block.layout) hfetch]
      simp [Section.packets]
    | some found =>
      obtain ⟨block, w'⟩ := found
      have hnext := next_of_block hfetch
      have hsize := Window.size_fetch _ _ hfetch
      have horder : Block.layout.next s.order block = (s.take block).1.order :=
        (s.order_take block).symm
      rw [Layout.drain_of_value (l := Block.layout) hfetch, horder, Section.packets]
      cases hrecord : (s.take block).2 with
      | none =>
        rw [hrecord] at hnext
        rw [recordsOnto_congr hnext, recordsOnto_blocks (s.take block).1 w' done]
        simp
      | some record =>
        rw [hrecord] at hnext
        rw [recordsOnto_of_next hnext, recordsOnto_blocks (s.take block).1 w' (record :: done)]
        simp
termination_by w.size

theorem records_blocks (w : Window) : (blocks .start w).records =
    (Block.records (Block.layout.drain .little w).1,
      (Block.layout.drain .little w).2.map (.unreadable .blocks .reading)) := by
  rw [records, recordsOnto_blocks, ← Section.packets_start]
  rfl

end Blocks

end Reader

/-! ## Padding -/

theorem Block.length_of_interpret {order : ByteOrder} {kind : Nat} {body : BlockBody}
    {rest rest' : Bytes} {number : UInt32} {ticks : UInt64} {capturedLength wireLength : UInt32}
    {data : Bytes} (h : interpret order kind body rest =
      .block (.enhancedPacket number ticks capturedLength wireLength data) rest') :
    data.length = aligned capturedLength.toNat := by
  simp only [interpret] at h
  repeat' split at h
  all_goals first | (simp at h; done) | skip
  rename_i hlargest _ data' after hdata _
  simp only [Parsed.block.injEq, enhancedPacket.injEq] at h
  obtain ⟨⟨-, -, rfl, -, rfl⟩, -⟩ := h
  rw [UInt32.toNat_ofNat', Nat.mod_eq_of_lt (by unfold largestPayload at hlargest; omega)]
  exact (Bytes.split?_eq_some hdata).2

/-- A packet that states its captured length holds that many bytes, filled up to a multiple of
four. -/
theorem Block.length_of_parse {order : ByteOrder} {b rest : Bytes} {number : UInt32}
    {ticks : UInt64} {capturedLength wireLength : UInt32} {data : Bytes}
    (h : parse order b =
      .block (.enhancedPacket number ticks capturedLength wireLength data) rest) :
    data.length = aligned capturedLength.toNat := by
  obtain ⟨-, h⟩ := parse_cases h
  split at h
  · obtain ⟨_, _, -, -, h⟩ := parseBody_of_parseSection h
    simp at h
  · obtain ⟨_, -, h⟩ := h
    exact length_of_interpret h

theorem Window.parse_of_fetch {α : Type} (p : BlockParser α) (w : Window) {value : α} {w' : Window}
    (h : w.fetch p = .ok (some (value, w'))) : ∃ b rest, p.parse b = .block value rest := by
  fun_induction fetch p w with
  | case1 => simp at h
  | case2 w _ v rest hp =>
    simp only [Except.ok.injEq, Option.some.injEq, Prod.mk.injEq] at h
    exact ⟨w.buffered, rest, h.1 ▸ hp⟩
  | case3 => simp at h
  | case4 => simp at h
  | case5 => simp at h
  | case6 w _ count _ _ _ ih => exact ih h

theorem Layout.parse_of_mem_drain {σ α : Type} (l : Layout σ α) {value : α} (s : σ) (w : Window)
    (h : value ∈ (l.drain s w).1) : ∃ s b rest, (l.parser s).parse b = .block value rest := by
  fun_induction drain l s w with
  | case1 => simp at h
  | case2 => simp at h
  | case3 s w first w' hfetch rest ih =>
    rcases List.mem_cons.1 h with rfl | h
    · obtain ⟨b, rest, hparse⟩ := Window.parse_of_fetch _ _ hfetch
      exact ⟨s, b, rest, hparse⟩
    · exact ih h

theorem Block.exists_padding {data : Bytes} {n : Nat} (h : data.length = aligned n) :
    (data.take n).length = n ∧ ∃ padding, data = data.take n ++ padding ∧ padding.length < 4 := by
  unfold aligned at h
  refine ⟨by rw [List.length_take]; omega, data.drop n, (List.take_append_drop n data).symm, ?_⟩
  rw [List.length_drop]
  omega

/-- Whatever blocks a window gives, the records that are read are those of the packets among them,
in order, each with the interface of its number in its own section (`Block.recordAfter`), and blocks
of other kinds do not matter. What is kept of a packet that states its captured length is that many
bytes, without those that fill the block up. -/
theorem records_by_section (w : Window) :
    (Reader.blocks .start w).records =
        (Block.records (Block.layout.drain .little w).1,
          (Block.layout.drain .little w).2.map (.unreadable .blocks .reading)) ∧
      (∀ before after kind,
        Block.records (before ++ .other kind :: after) = Block.records (before ++ after)) ∧
      ∀ number ticks capturedLength wireLength data,
        .enhancedPacket number ticks capturedLength wireLength data ∈
            (Block.layout.drain .little w).1 →
          (data.take capturedLength.toNat).length = capturedLength.toNat ∧
            ∃ padding, data = data.take capturedLength.toNat ++ padding ∧ padding.length < 4 := by
  refine ⟨Reader.records_blocks w, Block.records_append_other,
    fun number ticks capturedLength wireLength data hmem => ?_⟩
  obtain ⟨order, b, rest, hparse⟩ := Block.layout.parse_of_mem_drain .little w hmem
  exact Block.exists_padding (Block.length_of_parse hparse)

end Trawl.CaptureFile
