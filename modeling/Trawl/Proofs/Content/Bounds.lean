import Mathlib.Algebra.GroupWithZero.Nat
import Trawl.Content.Classification

/-!
# Splitting within the limits

However bytes are nested and compressed, splitting them stays within the limits: all decompressing
together is paid for out of one budget, what is found lies no deeper than the limits say, and it
takes up no more room than the bytes and what decompressing gave (`within_split`). Each part of a
splitting leaves the rest of the budget to the next (`Splitting.Within.onto`), so that this holds of
a series of messages and of their bodies as it holds of one.
-/

namespace Trawl.Content

namespace Splitting

/-- How many bytes all pieces take up. -/
def size (s : Splitting) : Nat :=
  (s.pieces.map (·.chunk.content.length)).sum

/-- What came of splitting `length` bytes where `budget` bytes may come out of decompressing, at a
place under which so many decompressions and bodies of messages are allowed. -/
structure Within (unwraps messages budget length : Nat) (s : Splitting) : Prop where
  depth : ∀ p ∈ s.pieces, p.unwraps ≤ unwraps ∧ p.messages ≤ messages
  spent : s.unwrapped.sum ≤ budget
  left : ∀ rest, s.outcome = .ok rest → s.unwrapped.sum + rest = budget
  size : s.size ≤ length + s.unwrapped.sum

variable {unwraps messages budget length : Nat} {s before : Splitting}

theorem within_fault (unwraps messages budget length : Nat) (fault : Fault) :
    (nothing (.error fault)).Within unwraps messages budget length where
  depth p hp := by simp [nothing] at hp
  spent := Nat.zero_le _
  left rest h := by simp [nothing] at h
  size := Nat.zero_le _

theorem within_nothing (unwraps messages budget : Nat) :
    (nothing (.ok budget)).Within unwraps messages budget 0 where
  depth p hp := by simp [nothing] at hp
  spent := Nat.zero_le _
  left rest h := by
    simp only [nothing, Except.ok.injEq] at h
    simp [nothing, h]
  size := Nat.zero_le _

/-- What decompressing gave is charged to the budget, and the rest is left to what lies inside. -/
theorem Within.unwrap {given : Nat} (hgiven : given ≤ budget)
    (h : s.Within unwraps messages (budget - given) given) :
    (s.unwrap given).Within (unwraps + 1) messages budget length := by
  have hspent := h.spent
  have hsize := h.size
  refine ⟨fun p hp => ?_, ?_, fun rest hrest => ?_, ?_⟩
  · obtain ⟨q, hq, rfl⟩ := List.mem_map.1 hp
    obtain ⟨hunwraps, hmessages⟩ := h.depth q hq
    exact ⟨Nat.succ_le_succ hunwraps, hmessages⟩
  · simp only [Splitting.unwrap, List.sum_cons]
    omega
  · have := h.left rest hrest
    simp only [Splitting.unwrap, List.sum_cons]
    omega
  · have hpieces : (s.unwrap given).size = s.size := by
      simp [Splitting.size, Splitting.unwrap, Function.comp_def]
    rw [hpieces]
    simp only [Splitting.unwrap, List.sum_cons]
    omega

theorem Within.embody (h : s.Within unwraps messages budget length) (head : Chunk) :
    (s.embody head).Within unwraps (messages + 1) budget (head.content.length + length) := by
  refine ⟨fun p hp => ?_, h.spent, h.left, ?_⟩
  · rcases List.mem_cons.1 hp with rfl | hp
    · exact ⟨Nat.zero_le _, Nat.zero_le _⟩
    · obtain ⟨q, hq, rfl⟩ := List.mem_map.1 hp
      obtain ⟨hunwraps, hmessages⟩ := h.depth q hq
      exact ⟨hunwraps, Nat.succ_le_succ hmessages⟩
  · have hsize := h.size
    have hpieces : (s.embody head).size = head.content.length + s.size := by
      simp [Splitting.size, Splitting.embody, Function.comp_def]
    rw [hpieces]
    show _ ≤ _ + s.unwrapped.sum
    omega

/-- What is found next is paid for out of what the pieces before it left. -/
theorem Within.onto {rest more : Nat} (hbefore : before.Within unwraps messages budget length)
    (ho : before.outcome = .ok rest) (h : s.Within unwraps messages rest more) :
    (s.onto before).Within unwraps messages budget (length + more) := by
  have hpaid := hbefore.left rest ho
  have hspent := h.spent
  have hsize := h.size
  have hsizeBefore := hbefore.size
  have hunwrapped : (s.onto before).unwrapped.sum = s.unwrapped.sum + before.unwrapped.sum := by
    simp [Splitting.onto, List.reverseAux_eq, List.sum_reverse]
  have hpieces : (s.onto before).size = s.size + before.size := by
    simp [Splitting.size, Splitting.onto, List.reverseAux_eq, List.sum_reverse]
  refine ⟨fun p hp => ?_, ?_, fun left hleft => ?_, ?_⟩
  · simp only [Splitting.onto, List.reverseAux_eq, List.mem_append, List.mem_reverse] at hp
    rcases hp with hp | hp
    · exact h.depth p hp
    · exact hbefore.depth p hp
  · omega
  · have := h.left left hleft
    omega
  · omega

theorem Within.inOrder (h : s.Within unwraps messages budget length) :
    s.inOrder.Within unwraps messages budget length := by
  have hunwrapped : s.inOrder.unwrapped.sum = s.unwrapped.sum := by
    simp [Splitting.inOrder, List.sum_reverse]
  have hpieces : s.inOrder.size = s.size := by
    simp [Splitting.size, Splitting.inOrder, List.sum_reverse]
  refine ⟨fun p hp => h.depth p (List.mem_reverse.1 hp), ?_, fun rest hrest => ?_, ?_⟩
  · rw [hunwrapped]
    exact h.spent
  · rw [hunwrapped]
    exact h.left rest hrest
  · rw [hunwrapped, hpieces]
    exact h.size

theorem Within.mono {more : Nat} (h : s.Within unwraps messages budget length)
    (hle : length ≤ more) : s.Within unwraps messages budget more := by
  have hsize := h.size
  exact { h with size := by omega }

end Splitting

/-- A way to split bytes that stays within its limits, whatever the budget and the bytes. -/
def StaysWithin (unwraps messages : Nat) (split : Splitter) : Prop :=
  ∀ budget b, (split budget b).Within unwraps messages budget b.length

/-- Every way to split that is meant for what lies under one more decompression stays within what
that leaves of `unwraps`. -/
def StayBelow (unwraps : Nat) (inner : Option Level) : Prop :=
  ∀ level ∈ inner, ∃ fewer, unwraps = fewer + 1 ∧
    ∀ room mediaType, StaysWithin fewer room (level room mediaType)

variable {unwraps messages : Nat} (limit : Nat)

theorem staysWithin_whole (kind : String) : StaysWithin unwraps messages (whole kind) := by
  intro budget b
  refine ⟨fun p hp => ?_, Nat.zero_le _, fun rest hrest => ?_, ?_⟩
  · obtain rfl := List.mem_singleton.1 hp
    exact ⟨Nat.zero_le _, Nat.zero_le _⟩
  · simp only [whole, Except.ok.injEq] at hrest
    simp [whole, hrest]
  · simp [whole, Splitting.size]

/-- A decoder may give whatever it likes, as long as it keeps to the limit that it is given. -/
theorem staysWithin_splitUnwrapped (encoding : Compressed) {split : Splitter}
    (h : StaysWithin unwraps messages split) :
    StaysWithin (unwraps + 1) messages (splitUnwrapped limit encoding split) := by
  intro budget b
  unfold splitUnwrapped
  split
  · exact Splitting.within_fault ..
  · exact Splitting.within_fault ..
  · rename_i data hdata
    exact (h (budget - data.length) data).unwrap (Compressed.length_decode hdata)

theorem staysWithin_splitUnframed {inner : Option Splitter}
    (hinner : ∀ split ∈ inner, ∃ fewer, unwraps = fewer + 1 ∧ StaysWithin fewer messages split) :
    StaysWithin unwraps messages (splitUnframed limit inner) := by
  intro budget b
  unfold splitUnframed
  split
  · rename_i kind split hkind
    obtain ⟨fewer, rfl, hsplit⟩ := hinner split rfl
    split
    · exact staysWithin_splitUnwrapped limit .gzip hsplit budget b
    · exact staysWithin_whole kind budget b
  · exact staysWithin_whole _ budget b
  · exact staysWithin_whole _ budget b

theorem staysWithin_splitDeclared {inner : Option (Option String → Splitter)}
    {here : Option String → Splitter}
    (hinner : ∀ split ∈ inner, ∃ fewer, unwraps = fewer + 1 ∧
      ∀ mediaType, StaysWithin fewer messages (split mediaType))
    (hhere : ∀ mediaType, StaysWithin unwraps messages (here mediaType)) (declared : Declared) :
    StaysWithin unwraps messages (splitDeclared limit inner here declared) := by
  unfold splitDeclared
  split
  · exact hhere _
  · exact staysWithin_splitUnframed limit (by simp)
  · rename_i encoding split hencoding
    obtain ⟨fewer, rfl, hsplit⟩ := hinner split rfl
    exact staysWithin_splitUnwrapped limit encoding (hsplit _)

section Messages

variable {body : Declared → Splitter} {unframed : Splitter}
  (hbody : ∀ declared, StaysWithin unwraps messages (body declared))
  (hunframed : StaysWithin unwraps (messages + 1) unframed)

include hbody

theorem within_splitMessage (m : Http.Message) (budget : Nat) :
    (splitMessage body m budget).Within unwraps (messages + 1) budget
      (m.head.length + m.framed.length) := by
  unfold splitMessage
  split
  · rw [← List.length_append]
    exact staysWithin_whole _ budget m.whole
  · rename_i b hb
    rw [← (Http.Message.body?_eq_some hb).1]
    exact (hbody _ budget b).embody ⟨m.kind.name, m.head⟩

include hunframed

/-- A series of messages and what follows it share what is left of the budget. -/
theorem within_splitMessages {total : Nat} (before : Splitting) (kind : Http.Kind) (budget : Nat)
    (b : Bytes) : ∀ {length : Nat}, before.Within unwraps (messages + 1) total length →
      before.outcome = .ok budget →
        (splitMessages body unframed before kind budget b).Within unwraps (messages + 1) total
          (length + b.length) := by
  fun_induction splitMessages body unframed before kind budget b with
  | case1 before kind budget b fault hp =>
    intro length h ho
    exact (h.onto ho (Splitting.within_fault _ _ budget b.length fault)).inOrder
  | case2 before kind budget b m hp found fault =>
    intro length h ho
    have hlength := congrArg List.length (Http.Message.parse_eq hp).1
    simp only [List.length_append] at hlength
    exact (h.onto ho (within_splitMessage hbody m budget)).inOrder.mono (by omega)
  | case3 before kind budget b m hp found rest hfound =>
    intro length h ho
    have hlength := congrArg List.length (Http.Message.parse_eq hp).1
    simp only [List.length_append] at hlength
    exact (h.onto ho (within_splitMessage hbody m budget)).inOrder.mono (by omega)
  | case4 before kind budget b m hp found rest hfound hempty kind' hkind =>
    rename_i ih
    intro length h ho
    have hlength := congrArg List.length (Http.Message.parse_eq hp).1
    simp only [List.length_append] at hlength
    exact (ih (h.onto ho (within_splitMessage hbody m budget)) hfound).mono (by omega)
  | case5 before kind budget b m hp found rest hfound hempty =>
    intro length h ho
    have hlength := congrArg List.length (Http.Message.parse_eq hp).1
    simp only [List.length_append] at hlength
    have hnext := h.onto ho (within_splitMessage hbody m budget)
    exact (hnext.onto hfound (hunframed rest m.following)).inOrder.mono (by omega)

end Messages

theorem staysWithin_splitPlain {unframed : Splitter} {series : Option (Http.Kind → Splitter)}
    (hunframed : StaysWithin unwraps messages unframed)
    (hseries : ∀ split ∈ series, ∀ kind, StaysWithin unwraps messages (split kind))
    (mediaType : Option String) :
    StaysWithin unwraps messages (splitPlain unframed series mediaType) := by
  intro budget b
  unfold splitPlain
  split
  · exact (Splitting.within_nothing unwraps messages budget).mono (Nat.zero_le _)
  split
  · exact staysWithin_whole _ budget b
  · split
    · rename_i split hsplit
      obtain ⟨split', hmem, hmap⟩ := Option.bind_eq_some_iff.1 hsplit
      obtain ⟨kind, -, rfl⟩ := Option.map_eq_some_iff.1 hmap
      exact hseries split' hmem kind budget b
    · exact hunframed budget b

/-! ### Levels -/

theorem StayBelow.unframed {inner : Option Level} (h : StayBelow unwraps inner) (room : Nat) :
    StaysWithin unwraps room (splitUnframed limit (inner.map fun split => split room none)) := by
  refine staysWithin_splitUnframed limit fun split hsplit => ?_
  obtain ⟨level, hlevel, rfl⟩ := Option.map_eq_some_iff.1 hsplit
  obtain ⟨fewer, hfewer, hwithin⟩ := h level hlevel
  exact ⟨fewer, hfewer, hwithin room none⟩

theorem StayBelow.declared {inner : Option Level} (h : StayBelow unwraps inner) (room : Nat)
    {here : Option String → Splitter}
    (hhere : ∀ mediaType, StaysWithin unwraps room (here mediaType)) (declared : Declared) :
    StaysWithin unwraps room
      (splitDeclared limit (inner.map fun split => split room) here declared) := by
  refine staysWithin_splitDeclared limit (fun split hsplit => ?_) hhere declared
  obtain ⟨level, hlevel, rfl⟩ := Option.map_eq_some_iff.1 hsplit
  obtain ⟨fewer, hfewer, hwithin⟩ := h level hlevel
  exact ⟨fewer, hfewer, hwithin room⟩

theorem staysWithin_splitNested {inner : Option Level} (h : StayBelow unwraps inner) :
    ∀ (room : Nat) (mediaType : Option String),
      StaysWithin unwraps room (splitNested limit inner room mediaType)
  | 0, mediaType => staysWithin_splitPlain (h.unframed limit 0) (by simp) mediaType
  | room + 1, mediaType => by
    have hunframed := h.unframed limit (room + 1)
    have hbody := h.declared limit room (staysWithin_splitNested h room)
    refine staysWithin_splitPlain hunframed ?_ mediaType
    rintro _ ⟨⟩ kind budget b
    have hseries := within_splitMessages hbody hunframed (.nothing (.ok budget)) kind budget b
      (Splitting.within_nothing unwraps (room + 1) budget) rfl
    rwa [Nat.zero_add] at hseries

theorem staysWithin_splitWithin : ∀ (unwraps room : Nat) (mediaType : Option String),
    StaysWithin unwraps room (splitWithin limit unwraps room mediaType)
  | 0, room, mediaType => staysWithin_splitNested limit (by simp [StayBelow]) room mediaType
  | unwraps + 1, room, mediaType => by
    refine staysWithin_splitNested limit ?_ room mediaType
    rintro _ ⟨⟩
    exact ⟨unwraps, rfl, staysWithin_splitWithin unwraps⟩

theorem stayBelow_inner? : ∀ unwraps : Nat, StayBelow unwraps (inner? limit unwraps)
  | 0 => by simp [StayBelow, inner?]
  | unwraps + 1 => by
    rintro _ ⟨⟩
    exact ⟨unwraps, rfl, staysWithin_splitWithin limit unwraps⟩

theorem within_split (limits : Limits) (declared : Declared) (b : Bytes) :
    (split limits declared b).Within limits.unwraps maxMessageNesting limits.decompressed
      b.length :=
  (stayBelow_inner? limits.decompressed limits.unwraps).declared limits.decompressed
    maxMessageNesting (staysWithin_splitWithin limits.decompressed limits.unwraps maxMessageNesting)
    declared limits.decompressed b

/-- Whatever the bytes and whatever is declared about them, all decompressing together gives no more
than the limits allow, so that the budget which each result is charged to always covers it. No piece
lies under more decompressions, or in the bodies of more messages, than is allowed. And the pieces
take up no more than the bytes and that budget. -/
theorem classify_stays_within_limits (limits : Limits) (encoding mediaType : Option String)
    (b : Bytes) :
    let s := split limits (.ofTexts encoding mediaType) b
    (∀ earlier given later, s.unwrapped = earlier ++ given :: later →
      given ≤ limits.decompressed - earlier.sum) ∧
    s.unwrapped.sum ≤ limits.decompressed ∧
    (∀ rest, s.outcome = .ok rest → rest = limits.decompressed - s.unwrapped.sum) ∧
    (∀ p ∈ s.pieces, p.unwraps ≤ limits.unwraps ∧ p.messages ≤ maxMessageNesting) ∧
    ∀ chunks, classify limits encoding mediaType b = .ok chunks →
      chunks = s.pieces.map (·.chunk) ∧
        (chunks.map (·.content.length)).sum ≤ b.length + limits.decompressed := by
  intro s
  have h : s.Within limits.unwraps maxMessageNesting limits.decompressed b.length :=
    within_split limits _ b
  have hspent := h.spent
  refine ⟨fun earlier given later hs => ?_, hspent, fun rest hrest => ?_, h.depth,
    fun chunks hc => ?_⟩
  · rw [hs, List.sum_append, List.sum_cons] at hspent
    omega
  · have := h.left rest hrest
    omega
  · have hchunks : chunks = s.pieces.map (·.chunk) := by
      change s.outcome.map (fun _ => s.chunks) = .ok chunks at hc
      cases ho : s.outcome with
      | error fault => simp [ho, Except.map] at hc
      | ok rest =>
        simp only [ho, Except.map, Except.ok.injEq] at hc
        exact hc.symm
    have hsize : (chunks.map (·.content.length)).sum = s.size := by
      rw [hchunks, List.map_map]
      rfl
    refine ⟨hchunks, ?_⟩
    have := h.size
    omega

/-- A response whose body is a member in a member: 23 bytes and the 30 in them use up the budget. -/
theorem classify_stays_within_limits_nested :
    ∃ b chunks, classify ⟨2, 53⟩ none none b = .ok chunks ∧
      (split ⟨2, 53⟩ (.ofTexts none none) b).unwrapped = [23, 30] ∧
      (split ⟨2, 53⟩ (.ofTexts none none) b).pieces.map (fun p => (p.unwraps, p.messages)) =
        [(0, 0), (2, 1)] ∧
      (chunks.map (·.content.length)).sum ≤ b.length + 53 := by
  let member : Bytes := [0x1F, 0x8B, 0x08, 0x00, 0x00, 0x00, 0x00, 0x00, 0x00, 0x03, 0x4B, 0x4C,
    0xC4, 0x07, 0x00, 0xC1, 0xD3, 0xC1, 0x6B, 0x1E, 0x00, 0x00, 0x00]
  let body : Bytes := [0x1F, 0x8B, 0x08, 0x00, 0x00, 0x00, 0x00, 0x00, 0x00, 0x03, 0x01, 0x17,
    0x00, 0xE8, 0xFF] ++ member ++ [0xC0, 0xFA, 0xA1, 0xA7, 0x17, 0x00, 0x00, 0x00]
  let b : Bytes := Bytes.ofText "HTTP/1.1 200 OK\r\nContent-Encoding: gzip\r\n\r\n" ++ body
  have hok : (classify ⟨2, 53⟩ none none b).toOption.isSome = true := by decide +kernel
  have hunwrapped : (split ⟨2, 53⟩ (.ofTexts none none) b).unwrapped = [23, 30] := by
    decide +kernel
  have hpieces : (split ⟨2, 53⟩ (.ofTexts none none) b).pieces.map
      (fun p => (p.unwraps, p.messages)) = [(0, 0), (2, 1)] := by
    decide +kernel
  obtain ⟨-, -, -, -, hsize⟩ := classify_stays_within_limits ⟨2, 53⟩ none none b
  cases hc : classify ⟨2, 53⟩ none none b with
  | error fault => simp [hc, Except.toOption] at hok
  | ok chunks => exact ⟨b, chunks, hc, hunwrapped, hpieces, (hsize chunks hc).2⟩

end Trawl.Content
