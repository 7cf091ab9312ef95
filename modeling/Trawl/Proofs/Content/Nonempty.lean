import Trawl.Proofs.Content.Series

/-!
# Empty pieces

A piece is taken of a message, of a body, of what an encoding gave, or of what is left over, and
none of these is empty where a piece is taken of it. What has not been looked into may be: bytes
that stay encoded are one piece, even where there are none (`classify_gives_empty_iff`).
-/

namespace Trawl.Content

namespace Splitting

/-- No piece is empty. -/
def Filled (s : Splitting) : Prop :=
  ∀ p ∈ s.pieces, p.chunk.content ≠ []

variable {s before : Splitting}

theorem filled_nothing (outcome : Except Fault Nat) : (nothing outcome).Filled := by
  simp [Filled, nothing]

theorem Filled.unwrap (h : s.Filled) (size : Nat) : (s.unwrap size).Filled := by
  intro p hp
  obtain ⟨q, hq, rfl⟩ := List.mem_map.1 hp
  exact h q hq

theorem Filled.embody (h : s.Filled) {head : Chunk} (hhead : head.content ≠ []) :
    (s.embody head).Filled := by
  intro p hp
  rcases List.mem_cons.1 hp with rfl | hp
  · exact hhead
  · obtain ⟨q, hq, rfl⟩ := List.mem_map.1 hp
    exact h q hq

theorem Filled.onto (h : s.Filled) (hbefore : before.Filled) : (s.onto before).Filled := by
  intro p hp
  simp only [Splitting.onto, List.reverseAux_eq, List.mem_append, List.mem_reverse] at hp
  exact hp.elim (h p) (hbefore p)

theorem Filled.inOrder (h : s.Filled) : s.inOrder.Filled := fun p hp =>
  h p (List.mem_reverse.1 hp)

end Splitting

/-- A way to split that gives no empty piece. -/
def Fills (split : Splitter) : Prop :=
  ∀ budget b, (split budget b).Filled

/-- A way to split that gives no empty piece of bytes that are not empty. -/
def FillsNonempty (split : Splitter) : Prop :=
  ∀ budget b, b ≠ [] → (split budget b).Filled

theorem Fills.nonempty {split : Splitter} (h : Fills split) : FillsNonempty split :=
  fun budget b _ => h budget b

theorem fillsNonempty_whole (kind : String) : FillsNonempty (whole kind) := by
  intro budget b hb p hp
  obtain rfl := List.mem_singleton.1 hp
  exact hb

variable (limit : Nat)

theorem fills_splitUnwrapped (encoding : Compressed) {split : Splitter} (h : Fills split) :
    Fills (splitUnwrapped limit encoding split) := by
  intro budget b
  unfold splitUnwrapped
  split
  · exact Splitting.filled_nothing _
  · exact Splitting.filled_nothing _
  · rename_i data _
    exact (h (budget - data.length) data).unwrap data.length

theorem fillsNonempty_splitUnframed {inner : Option Splitter} (h : ∀ split ∈ inner, Fills split) :
    FillsNonempty (splitUnframed limit inner) := by
  intro budget b hb
  unfold splitUnframed
  split
  · rename_i kind split _
    split
    · exact fills_splitUnwrapped limit .gzip (h split rfl) budget b
    · exact fillsNonempty_whole kind budget b hb
  · exact fillsNonempty_whole _ budget b hb
  · exact fillsNonempty_whole _ budget b hb

section Declared

variable {inner : Option (Option String → Splitter)} {here : Option String → Splitter}
  (hinner : ∀ split ∈ inner, ∀ mediaType, Fills (split mediaType))
  (hhere : ∀ mediaType, Fills (here mediaType))

include hinner hhere

/-- Only bytes that stay encoded can be taken for a piece without being looked at. -/
theorem fills_splitDeclared {declared : Declared}
    (h : inner ≠ none ∨ declared.encoding = none) :
    Fills (splitDeclared limit inner here declared) := by
  unfold splitDeclared
  split
  · exact hhere _
  · rename_i encoding hencoding
    simp [hencoding] at h
  · rename_i encoding split hencoding
    exact fills_splitUnwrapped limit encoding (hinner split rfl _)

theorem fillsNonempty_splitDeclared (declared : Declared) :
    FillsNonempty (splitDeclared limit inner here declared) := by
  by_cases h : inner ≠ none ∨ declared.encoding = none
  · exact (fills_splitDeclared limit hinner hhere h).nonempty
  · obtain ⟨rfl, hencoding⟩ : inner = none ∧ declared.encoding ≠ none := by simpa using h
    unfold splitDeclared
    split
    · contradiction
    · exact fillsNonempty_splitUnframed limit (by simp)
    · contradiction

end Declared

section Messages

variable {body : Declared → Splitter} {unframed : Splitter}
  (hbody : ∀ declared, FillsNonempty (body declared)) (hunframed : FillsNonempty unframed)

include hbody

theorem filled_splitMessage {m : Http.Message} (hhead : m.head ≠ []) (budget : Nat) :
    (splitMessage body m budget).Filled := by
  unfold splitMessage
  split
  · exact fillsNonempty_whole _ budget m.whole (by simp [Http.Message.whole, hhead])
  · rename_i b hb
    exact (hbody _ budget b (Http.Message.body?_eq_some hb).2).embody hhead

include hunframed

/-- The head of a message is never empty, and what is split behind the last one is neither. -/
theorem filled_splitMessages (before : Splitting) (kind : Http.Kind) (budget : Nat) (b : Bytes)
    (hbefore : before.Filled) : (splitMessages body unframed before kind budget b).Filled := by
  fun_induction splitMessages body unframed before kind budget b with
  | case1 before kind budget b fault hp =>
    exact ((Splitting.filled_nothing _).onto hbefore).inOrder
  | case2 before kind budget b m hp found fault =>
    have hmessage := filled_splitMessage hbody (Http.Message.parse_eq hp).2 budget
    exact (hmessage.onto hbefore).inOrder
  | case3 before kind budget b m hp found rest =>
    have hmessage := filled_splitMessage hbody (Http.Message.parse_eq hp).2 budget
    exact (hmessage.onto hbefore).inOrder
  | case4 before kind budget b m hp found rest hfound hempty kind' hkind ih =>
    have hmessage := filled_splitMessage hbody (Http.Message.parse_eq hp).2 budget
    exact ih (hmessage.onto hbefore)
  | case5 before kind budget b m hp found rest hfound hempty =>
    have hmessage := filled_splitMessage hbody (Http.Message.parse_eq hp).2 budget
    have hfollowing : m.following ≠ [] := by simpa using hempty
    exact ((hunframed rest m.following hfollowing).onto (hmessage.onto hbefore)).inOrder

end Messages

theorem fills_splitPlain {unframed : Splitter} {series : Option (Http.Kind → Splitter)}
    (hunframed : FillsNonempty unframed) (hseries : ∀ split ∈ series, ∀ kind, Fills (split kind))
    (mediaType : Option String) : Fills (splitPlain unframed series mediaType) := by
  intro budget b
  unfold splitPlain
  split
  · exact Splitting.filled_nothing _
  · rename_i hempty
    have hb : b ≠ [] := by simpa using hempty
    split
    · exact fillsNonempty_whole _ budget b hb
    · split
      · rename_i split hsplit
        obtain ⟨split', hmem, hmap⟩ := Option.bind_eq_some_iff.1 hsplit
        obtain ⟨kind, -, rfl⟩ := Option.map_eq_some_iff.1 hmap
        exact hseries split' hmem kind budget b
      · exact hunframed budget b hb

/-! ### Levels -/

section Levels

variable {inner : Option Level}
  (hinner : ∀ level ∈ inner, ∀ room mediaType, Fills (level room mediaType))

include hinner

theorem fillsNonempty_unframed (room : Nat) : FillsNonempty
    (splitUnframed limit (inner.map fun split => split room none)) := by
  refine fillsNonempty_splitUnframed limit fun split hsplit => ?_
  obtain ⟨level, hlevel, rfl⟩ := Option.map_eq_some_iff.1 hsplit
  exact hinner level hlevel room none

theorem fills_below (room : Nat) : ∀ split ∈ inner.map fun split : Level => split room,
    ∀ mediaType, Fills (split mediaType) := by
  intro split hsplit
  obtain ⟨level, hlevel, rfl⟩ := Option.map_eq_some_iff.1 hsplit
  exact hinner level hlevel room

theorem fills_splitNested : ∀ (room : Nat) (mediaType : Option String),
    Fills (splitNested limit inner room mediaType)
  | 0, mediaType => fills_splitPlain (fillsNonempty_unframed limit hinner 0) (by simp) mediaType
  | room + 1, mediaType => by
    have hbody := fillsNonempty_splitDeclared limit (fills_below hinner room)
      (fills_splitNested room)
    refine fills_splitPlain (fillsNonempty_unframed limit hinner (room + 1)) ?_ mediaType
    rintro _ ⟨⟩ kind budget b
    exact filled_splitMessages hbody (fillsNonempty_unframed limit hinner (room + 1)) _ kind
      budget b (Splitting.filled_nothing _)

end Levels

theorem fills_splitWithin : ∀ (unwraps room : Nat) (mediaType : Option String),
    Fills (splitWithin limit unwraps room mediaType)
  | 0, room, mediaType => fills_splitNested limit (by simp) room mediaType
  | unwraps + 1, room, mediaType => by
    refine fills_splitNested limit ?_ room mediaType
    rintro _ ⟨⟩
    exact fills_splitWithin unwraps

theorem fills_inner? : ∀ unwraps : Nat, ∀ level ∈ inner? limit unwraps,
    ∀ room mediaType, Fills (level room mediaType)
  | 0 => by simp [inner?]
  | unwraps + 1 => by
    rintro _ ⟨⟩
    exact fills_splitWithin limit unwraps

/-- Nothing empty is found, unless what was declared to be encoded is empty and no encoding may be
undone. -/
theorem filled_split {limits : Limits} {declared : Declared} {b : Bytes}
    (h : b ≠ [] ∨ limits.unwraps ≠ 0 ∨ declared.encoding = none) :
    (split limits declared b).Filled := by
  have hinner := fills_below (fills_inner? limits.decompressed limits.unwraps) maxMessageNesting
  have hhere := fills_splitWithin limits.decompressed limits.unwraps maxMessageNesting
  rcases h with hb | h
  · exact fillsNonempty_splitDeclared limits.decompressed hinner hhere declared
      limits.decompressed b hb
  · refine fills_splitDeclared limits.decompressed hinner hhere (h.imp_left fun hunwraps => ?_)
      limits.decompressed b
    obtain ⟨unwraps, hunwraps⟩ := Nat.exists_eq_succ_of_ne_zero hunwraps
    simp [hunwraps, inner?]

theorem Compressed.decode_nil (limit : Nat) (encoding : Compressed) :
    encoding.decode limit [] = .error .corrupt := by
  cases encoding with
  | gzip => rfl
  | deflate =>
    have hwrapped : Compression.inflateWrapped limit [] = .error .corrupt := rfl
    have hblocks : Compression.Deflate.inflateBlocks (.ofLimit limit) (.ofBytes 0 []) #[] =
        (#[], .error .exhausted) := by
      rw [Compression.Deflate.inflateBlocks]
      rfl
    simp [decode, hwrapped, Compression.inflateBare, Compression.Deflate.inflate, hblocks,
      Compression.conclude, Except.map]

/-- What comes of nothing at all. -/
theorem classify_nil (limits : Limits) (encoding mediaType : Option String) :
    classify limits encoding mediaType [] =
      match encoding.bind Compressed.ofDeclared? with
      | none => .ok []
      | some compressed =>
        if limits.unwraps = 0 then .ok [⟨plainTextKind, []⟩]
        else .error (.decompression compressed) := by
  have hnone : ∀ level mediaType,
      splitWithin limits.decompressed level maxMessageNesting mediaType limits.decompressed [] =
        .nothing (.ok limits.decompressed)
    | 0, _ => rfl
    | _ + 1, _ => rfl
  have htext : isPlainText [] = true := by
    rw [isPlainText]
    rfl
  simp only [classify, split, Declared.ofTexts, splitDeclared]
  cases encoding.bind Compressed.ofDeclared? with
  | none =>
    simp only [hnone]
    rfl
  | some compressed =>
    obtain ⟨unwraps, decompressed⟩ := limits
    cases unwraps with
    | zero =>
      have hsignature : Signature.recognize? [] = none := by decide +kernel
      simp [inner?, splitUnframed, hsignature, htext, whole, Splitting.result, Splitting.chunks,
        Except.map]
    | succ unwraps =>
      simp [inner?, splitUnwrapped, Compressed.decode_nil, Splitting.nothing, Splitting.result,
        Except.map]

/-- Classifying gives an empty piece of content exactly for no bytes at all that are declared to be
encoded where no encoding may be undone. Of no bytes there comes no piece otherwise: none where no
encoding is declared, and a fault where one may be undone. -/
theorem classify_gives_empty_iff (limits : Limits) (encoding mediaType : Option String)
    (b : Bytes) :
    ((∃ chunks, classify limits encoding mediaType b = .ok chunks ∧ ∃ c ∈ chunks, c.content = []) ↔
      b = [] ∧ limits.unwraps = 0 ∧ (encoding.bind Compressed.ofDeclared?).isSome) ∧
    classify limits encoding mediaType [] =
      match encoding.bind Compressed.ofDeclared? with
      | none => .ok []
      | some compressed =>
        if limits.unwraps = 0 then .ok [⟨plainTextKind, []⟩]
        else .error (.decompression compressed) := by
  refine ⟨⟨?_, ?_⟩, classify_nil limits encoding mediaType⟩
  · rintro ⟨chunks, hchunks, c, hc, hempty⟩
    by_contra hnot
    have hfilled : (split limits (.ofTexts encoding mediaType) b).Filled := by
      refine filled_split (not_and_or.1 hnot |>.imp_right fun h => not_and_or.1 h |>.imp_right ?_)
      exact fun h => by simpa [Declared.ofTexts] using h
    obtain ⟨-, rfl⟩ := Splitting.result_eq_ok_iff.1 hchunks
    obtain ⟨p, hp, rfl⟩ := List.mem_map.1 hc
    exact hfilled p hp hempty
  · rintro ⟨rfl, hunwraps, hencoding⟩
    obtain ⟨compressed, hcompressed⟩ := Option.isSome_iff_exists.1 hencoding
    refine ⟨_, ?_, ⟨plainTextKind, []⟩, List.mem_singleton_self _, rfl⟩
    rw [classify_nil, hcompressed]
    exact if_pos hunwraps

/-- Of no bytes at all, said to be a gzip member, there comes an empty text. -/
theorem empty_text_of_nothing :
    classify ⟨0, 52428800⟩ (some "gzip") none [] = .ok [⟨plainTextKind, []⟩] := by
  rw [classify_nil]
  rfl

end Trawl.Content
