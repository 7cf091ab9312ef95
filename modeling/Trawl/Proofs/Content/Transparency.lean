import Trawl.Content.Classification
import Mathlib.Control.Monad.Basic
import Mathlib.Tactic.SplitIfs

/-!
# A declared encoding is transparent

Bytes that are declared to be encoded are classified as what they decode to, with one decompression
less allowed and a budget that the decoded bytes are charged to (`classify_encoded`). Both runs are at
the same budget wherever they correspond; what tells them apart is the limit they report when the
budget runs out. So changing that limit commutes with every way of splitting bytes, up to
`withLimit_splitWithin`.
-/

namespace Trawl.Content

/-- The same fault where the budget was `limit` at first. -/
def Fault.withLimit (limit : Nat) : Fault → Fault
  | .tooLarge _ => .tooLarge limit
  | fault => fault

def Splitting.withLimit (limit : Nat) (s : Splitting) : Splitting where
  pieces := s.pieces
  unwrapped := s.unwrapped
  outcome := s.outcome.mapError (.withLimit limit)

def Splitter.withLimit (limit : Nat) (split : Splitter) : Splitter :=
  fun budget b => (split budget b).withLimit limit

def Level.withLimit (limit : Nat) (level : Level) : Level :=
  fun room mediaType => (level room mediaType).withLimit limit

variable {limit newLimit : Nat}

/-! ## Faults of messages -/

theorem withLimit_of_framing_eq_error {kind : Http.Kind} {head : Http.Head} {fault : Fault}
    (h : Http.Message.framing kind head = .error fault) : fault.withLimit limit = fault := by
  unfold Http.Message.framing at h
  dsimp only at h
  split at h
  · split at h
    · rw [← Except.error.inj h]
      rfl
    · simp at h
  · simp at h

theorem withLimit_of_splitBody_eq_error {framing : Http.Message.Framing} {rest : Bytes}
    {fault : Fault} (h : Http.Message.splitBody framing rest = .error fault) :
    fault.withLimit limit = fault := by
  unfold Http.Message.splitBody at h
  split at h
  · split at h
    · rw [← Except.error.inj h]
      rfl
    · simp at h
  · split at h
    · rw [← Except.error.inj h]
      rfl
    · simp at h
  · simp at h
  · simp at h

/-- What is wrong with a message does not depend on a budget. -/
theorem withLimit_of_parse_eq_error {kind : Http.Kind} {b : Bytes} {fault : Fault}
    (h : Http.Message.parse kind b = .error fault) : fault.withLimit limit = fault := by
  unfold Http.Message.parse at h
  split at h
  · rw [← Except.error.inj h]
    rfl
  · rw [← Except.error.inj h]
    rfl
  · split at h
    · rename_i hf
      rw [← Except.error.inj h]
      exact withLimit_of_framing_eq_error hf
    · split at h
      · rename_i hs
        rw [← Except.error.inj h]
        exact withLimit_of_splitBody_eq_error hs
      · simp at h

/-! ## Splittings -/

namespace Splitting

theorem withLimit_of_ok {s : Splitting} {budget : Nat} (h : s.outcome = .ok budget) :
    s.withLimit limit = s := by
  rw [withLimit, h]
  cases s
  cases h
  rfl

theorem withLimit_nothing (fault : Fault) :
    (nothing (.error fault)).withLimit limit = nothing (.error (fault.withLimit limit)) :=
  rfl

theorem withLimit_unwrap (s : Splitting) (size : Nat) :
    (s.unwrap size).withLimit limit = (s.withLimit limit).unwrap size :=
  rfl

theorem result_unwrap (s : Splitting) (size : Nat) : (s.unwrap size).result = s.result := by
  have hchunks : (s.unwrap size).chunks = s.chunks := by
    simp [chunks, unwrap, Function.comp_def]
  rw [result, result, hchunks]
  rfl

theorem withLimit_embody (s : Splitting) (head : Chunk) :
    (s.embody head).withLimit limit = (s.withLimit limit).embody head :=
  rfl

theorem withLimit_onto (s before : Splitting) :
    (s.onto before).withLimit limit = (s.withLimit limit).onto before :=
  rfl

theorem withLimit_inOrder (s : Splitting) :
    s.inOrder.withLimit limit = (s.withLimit limit).inOrder :=
  rfl

theorem result_withLimit (s : Splitting) :
    (s.withLimit limit).result = s.result.mapError (.withLimit limit) := by
  unfold result
  cases h : s.outcome with
  | ok budget => rw [withLimit_of_ok h, h]; rfl
  | error fault => rw [withLimit, h]; rfl

end Splitting

/-! ## Ways to split -/

theorem withLimit_splitUnwrapped (encoding : Compressed) (split : Splitter) :
    (splitUnwrapped limit encoding split).withLimit newLimit =
      splitUnwrapped newLimit encoding (split.withLimit newLimit) := by
  funext budget b
  unfold Splitter.withLimit splitUnwrapped
  split
  · exact Splitting.withLimit_nothing _
  · exact Splitting.withLimit_nothing _
  · exact Splitting.withLimit_unwrap _ _

theorem withLimit_splitUnframed (inner : Option Splitter) :
    (splitUnframed limit inner).withLimit newLimit =
      splitUnframed newLimit (inner.map (.withLimit newLimit)) := by
  funext budget b
  unfold Splitter.withLimit splitUnframed
  cases Signature.recognize? b with
  | none => rfl
  | some kind =>
    cases inner with
    | none => rfl
    | some split =>
      dsimp only [Option.map_some]
      split_ifs
      · exact congrFun (congrFun (withLimit_splitUnwrapped .gzip split) budget) b
      · rfl

theorem withLimit_splitDeclared (inner : Option (Option String → Splitter))
    (here : Option String → Splitter) (declared : Declared) :
    (splitDeclared limit inner here declared).withLimit newLimit =
      splitDeclared newLimit
        (inner.map fun split mediaType => (split mediaType).withLimit newLimit)
        (fun mediaType => (here mediaType).withLimit newLimit) declared := by
  unfold splitDeclared
  cases declared.encoding with
  | none => rfl
  | some encoding =>
    cases inner with
    | none => exact withLimit_splitUnframed none
    | some split => exact withLimit_splitUnwrapped encoding (split declared.mediaType)

section Messages

variable (body : Declared → Splitter) (unframed : Splitter)

theorem withLimit_splitMessage (m : Http.Message) (budget : Nat) :
    (splitMessage body m budget).withLimit limit =
      splitMessage (fun declared => (body declared).withLimit limit) m budget := by
  unfold splitMessage
  split
  · rfl
  · exact Splitting.withLimit_embody _ _

theorem splitMessages_of_error (before : Splitting) {kind : Http.Kind} (budget : Nat) {b : Bytes}
    {fault : Fault} (h : Http.Message.parse kind b = .error fault) :
    splitMessages body unframed before kind budget b =
      ((Splitting.nothing (.error fault)).onto before).inOrder := by
  rw [splitMessages]
  split
  · rename_i hp
    rw [h] at hp
    rw [Except.error.inj hp]
  · rename_i hp
    rw [h] at hp
    cases hp

theorem splitMessages_of_ok (before : Splitting) {kind : Http.Kind} (budget : Nat) {b : Bytes}
    {m : Http.Message} (h : Http.Message.parse kind b = .ok m) :
    splitMessages body unframed before kind budget b =
      match ((splitMessage body m budget).onto before).outcome with
      | .error _ => ((splitMessage body m budget).onto before).inOrder
      | .ok budget' =>
        if m.following.isEmpty then ((splitMessage body m budget).onto before).inOrder
        else
          match Http.StartLine.leading? m.following with
          | some kind =>
            splitMessages body unframed ((splitMessage body m budget).onto before) kind budget'
              m.following
          | none =>
            ((unframed budget' m.following).onto
              ((splitMessage body m budget).onto before)).inOrder := by
  rw [splitMessages]
  split
  · rename_i hp
    rw [h] at hp
    cases hp
  · rename_i hp
    rw [h] at hp
    obtain rfl := Except.ok.inj hp
    rfl

theorem withLimit_splitMessages (before : Splitting) (kind : Http.Kind) (budget : Nat) (b : Bytes) :
    (splitMessages body unframed before kind budget b).withLimit limit =
      splitMessages (fun declared => (body declared).withLimit limit) (unframed.withLimit limit)
        before kind budget b := by
  fun_induction splitMessages body unframed before kind budget b with
  | case1 before kind budget b fault hp =>
    rw [splitMessages_of_error _ _ before budget hp, Splitting.withLimit_inOrder,
      Splitting.withLimit_onto, Splitting.withLimit_nothing, withLimit_of_parse_eq_error hp]
  | case2 before kind budget b m hp found fault ho =>
    rw [splitMessages_of_ok _ _ before budget hp, ← withLimit_splitMessage,
      ← Splitting.withLimit_onto]
    have ho' : (found.withLimit limit).outcome = .error (fault.withLimit limit) := by
      rw [Splitting.withLimit, ho]
      rfl
    rw [ho']
    exact Splitting.withLimit_inOrder found
  -- Up to here there was no fault, so that both sides go on from the same pieces.
  | case3 before kind budget b m hp found budget' ho hempty =>
    rw [splitMessages_of_ok _ _ before budget hp, ← withLimit_splitMessage,
      ← Splitting.withLimit_onto, Splitting.withLimit_of_ok ho, ho]
    dsimp only
    rw [if_pos hempty, Splitting.withLimit_inOrder, Splitting.withLimit_of_ok ho]
  | case4 before kind budget b m hp found budget' ho hempty kind' hk ih =>
    rw [splitMessages_of_ok _ _ before budget hp, ← withLimit_splitMessage,
      ← Splitting.withLimit_onto, Splitting.withLimit_of_ok ho, ho]
    dsimp only
    rw [if_neg hempty, hk]
    exact ih
  | case5 before kind budget b m hp found budget' ho hempty hk =>
    rw [splitMessages_of_ok _ _ before budget hp, ← withLimit_splitMessage,
      ← Splitting.withLimit_onto, Splitting.withLimit_of_ok ho, ho]
    dsimp only
    rw [if_neg hempty, hk]
    rfl

theorem withLimit_series (kind : Http.Kind) :
    Splitter.withLimit limit (fun budget =>
        splitMessages body unframed (.nothing (.ok budget)) kind budget) =
      fun budget => splitMessages (fun declared => (body declared).withLimit limit)
        (unframed.withLimit limit) (.nothing (.ok budget)) kind budget := by
  funext budget b
  exact withLimit_splitMessages body unframed _ kind budget b

end Messages

/-! ## Levels -/

theorem withLimit_splitPlain (unframed : Splitter) (messages : Option (Http.Kind → Splitter))
    (mediaType : Option String) :
    (splitPlain unframed messages mediaType).withLimit limit =
      splitPlain (unframed.withLimit limit)
        (messages.map fun split kind => (split kind).withLimit limit) mediaType := by
  funext budget b
  unfold Splitter.withLimit splitPlain
  split_ifs
  · rfl
  cases mediaType with
  | some kind => rfl
  | none =>
    cases messages with
    | none => rfl
    | some split =>
      dsimp only [Option.map_some, Option.bind_some]
      cases Http.StartLine.first? b with
      | none => rfl
      | some kind => rfl

theorem withLimit_splitNested (inner : Option Level) : ∀ (room : Nat) (mediaType : Option String),
    (splitNested limit inner room mediaType).withLimit newLimit =
      splitNested newLimit (inner.map (.withLimit newLimit)) room mediaType
  | 0, mediaType => by
    rw [splitNested, splitNested, withLimit_splitPlain, withLimit_splitUnframed, Option.map_map,
      Option.map_map]
    rfl
  | room + 1, mediaType => by
    -- Bodies are split one level further down, where the statement holds already.
    have hbody (declared : Declared) :
        (splitDeclared limit (inner.map fun split => split room) (splitNested limit inner room)
          declared).withLimit newLimit =
        splitDeclared newLimit ((inner.map (Level.withLimit newLimit)).map fun split => split room)
          (splitNested newLimit (inner.map (Level.withLimit newLimit)) room) declared := by
      rw [withLimit_splitDeclared, funext (withLimit_splitNested inner room), Option.map_map,
        Option.map_map]
      rfl
    rw [splitNested, splitNested, withLimit_splitPlain, Option.map_some]
    simp only [withLimit_series, withLimit_splitUnframed, hbody, Option.map_map]
    rfl

theorem withLimit_splitWithin : ∀ (unwraps room : Nat) (mediaType : Option String),
    (splitWithin limit unwraps room mediaType).withLimit newLimit =
      splitWithin newLimit unwraps room mediaType
  | 0, room, mediaType => withLimit_splitNested none room mediaType
  | unwraps + 1, room, mediaType => by
    have hlevel : Level.withLimit newLimit (splitWithin limit unwraps) =
        splitWithin newLimit unwraps := by
      funext room mediaType
      exact withLimit_splitWithin unwraps room mediaType
    rw [splitWithin, splitWithin, withLimit_splitNested, Option.map_some, hlevel]

/-- Content that is declared to be encoded is what it decodes to: the same pieces, or the same fault
but for the limit that a fault of too much output names. -/
theorem classify_encoded (unwraps budget : Nat) (name : String) (mediaType : Option String)
    (b data : Bytes) (encoding : Compressed) (hname : Compressed.ofDeclared? name = some encoding)
    (hdata : encoding.decode budget b = .ok data) :
    data.length ≤ budget ∧
      classify ⟨unwraps + 1, budget⟩ (some name) mediaType b =
        (classify ⟨unwraps, budget - data.length⟩ none mediaType data).mapError
          (.withLimit budget) := by
  refine ⟨Compressed.length_decode hdata, ?_⟩
  let declared := mediaType.bind MediaType.ofDeclared?
  have hencoded : split ⟨unwraps + 1, budget⟩ (.ofTexts (some name) mediaType) b =
      (splitWithin budget unwraps maxMessageNesting declared (budget - data.length) data).unwrap
        data.length := by
    unfold split splitDeclared Declared.ofTexts
    rw [Option.bind_some, hname]
    dsimp only [inner?, Option.map_some]
    unfold splitUnwrapped
    rw [hdata]
  have hplain : split ⟨unwraps, budget - data.length⟩ (.ofTexts none mediaType) data =
      splitWithin (budget - data.length) unwraps maxMessageNesting declared (budget - data.length)
        data := rfl
  -- Depth and budget agree from here on; only the limit that faults name does not.
  have hlimit : (splitWithin (budget - data.length) unwraps maxMessageNesting declared).withLimit
      budget = splitWithin budget unwraps maxMessageNesting declared :=
    withLimit_splitWithin unwraps maxMessageNesting declared
  unfold classify
  rw [hencoded, hplain, ← hlimit, ← Splitting.result_withLimit]
  exact Splitting.result_unwrap _ _

/-- A member in a member: after the 23 bytes that the outer one holds, 17 are left for the inner one. -/
theorem classify_encoded_twice :
    ∃ b data : Bytes, Compressed.ofDeclared? " X-GZip " = some .gzip ∧
      Compressed.gzip.decode 40 b = .ok data ∧ data.length = 23 ∧
      classify ⟨1, 17⟩ none none data = .error (.tooLarge 17) ∧
      classify ⟨2, 40⟩ (some " X-GZip ") none b = .error (.tooLarge 40) := by
  let data : Bytes := [0x1F, 0x8B, 0x08, 0x00, 0x00, 0x00, 0x00, 0x00, 0x00, 0x03, 0x4B, 0x4C,
    0xC4, 0x07, 0x00, 0xC1, 0xD3, 0xC1, 0x6B, 0x1E, 0x00, 0x00, 0x00]
  let b : Bytes := [0x1F, 0x8B, 0x08, 0x00, 0x00, 0x00, 0x00, 0x00, 0x00, 0x03, 0x01, 0x17, 0x00,
    0xE8, 0xFF] ++ data ++ [0xC0, 0xFA, 0xA1, 0xA7, 0x17, 0x00, 0x00, 0x00]
  have hname : Compressed.ofDeclared? " X-GZip " = some .gzip := by decide +kernel
  have hdata : Compressed.gzip.decode 40 b = .ok data := by decide +kernel
  have hinner : classify ⟨1, 17⟩ none none data = .error (.tooLarge 17) := by decide +kernel
  refine ⟨b, data, hname, hdata, rfl, hinner, ?_⟩
  have houter := (classify_encoded 1 40 " X-GZip " none b data .gzip hname hdata).2
  rw [houter]
  exact congrArg (Except.mapError (Fault.withLimit 40)) hinner

end Trawl.Content
