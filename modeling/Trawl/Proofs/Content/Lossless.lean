import Trawl.Content.Classification

/-!
# Splitting loses nothing

Where nothing is decompressed, the pieces that bytes are split into make up those bytes, in order
(`keeps_split`): at every level of the bodies of messages, for every message of a series and for
what follows the last one. Where no decompression is allowed, none happens.
-/

namespace Trawl.Content

namespace Splitting

/-- The bytes of all pieces. -/
def bytes (s : Splitting) : Bytes :=
  (s.chunks.map (·.content)).flatten

theorem bytes_embody (s : Splitting) (head : Chunk) :
    (s.embody head).bytes = head.content ++ s.bytes := by
  simp [bytes, chunks, embody, Function.comp_def]

theorem bytes_onto (s before : Splitting) :
    (s.onto before).inOrder.bytes = before.inOrder.bytes ++ s.bytes := by
  simp [bytes, chunks, onto, inOrder, List.reverseAux_eq]

theorem unwrapped_onto (s before : Splitting) :
    (s.onto before).unwrapped = [] ↔ s.unwrapped = [] ∧ before.unwrapped = [] := by
  simp [onto, List.reverseAux_eq]

theorem unwrapped_inOrder (s : Splitting) : s.inOrder.unwrapped = [] ↔ s.unwrapped = [] := by
  simp [inOrder]

/-- What bytes were split into makes them up unless something was decompressed; and nothing was
where `flat` holds. -/
structure Keeps (flat : Prop) (b : Bytes) (s : Splitting) : Prop where
  unwrapped : flat → s.unwrapped = []
  bytes : s.unwrapped = [] → ∀ budget, s.outcome = .ok budget → s.bytes = b

/-- The same where `before` was found before `b` was split. -/
structure Adds (flat : Prop) (s before : Splitting) (b : Bytes) : Prop where
  unwrapped : flat → before.unwrapped = [] → s.unwrapped = []
  unwrapped_before : s.unwrapped = [] → before.unwrapped = []
  bytes : s.unwrapped = [] → ∀ budget, s.outcome = .ok budget →
    s.bytes = before.inOrder.bytes ++ b

variable {flat : Prop}

theorem Keeps.onto {b : Bytes} {s : Splitting} (h : s.Keeps flat b) (before : Splitting) :
    (s.onto before).inOrder.Adds flat before b where
  unwrapped hf hb := by
    rw [unwrapped_inOrder, unwrapped_onto]
    exact ⟨h.unwrapped hf, hb⟩
  unwrapped_before hu := by
    rw [unwrapped_inOrder, unwrapped_onto] at hu
    exact hu.2
  bytes hu budget ho := by
    rw [unwrapped_inOrder, unwrapped_onto] at hu
    rw [bytes_onto, h.bytes hu.1 budget ho]

theorem Adds.trans {before found s : Splitting} {b following : Bytes} {budget : Nat}
    (hfound : found.inOrder.Adds flat before b) (hs : s.Adds flat found following)
    (ho : found.outcome = .ok budget) : s.Adds flat before (b ++ following) where
  unwrapped hf hb := hs.unwrapped hf (found.unwrapped_inOrder.1 (hfound.unwrapped hf hb))
  unwrapped_before hu :=
    hfound.unwrapped_before (found.unwrapped_inOrder.2 (hs.unwrapped_before hu))
  bytes hu budget' ho' := by
    have hf := found.unwrapped_inOrder.2 (hs.unwrapped_before hu)
    rw [hs.bytes hu budget' ho', hfound.bytes hf budget ho, List.append_assoc]

/-- Bytes are not made up where there was a fault. -/
theorem Adds.of_error {before s : Splitting} {b : Bytes} {fault : Fault} (h : s.Adds flat before b)
    (ho : s.outcome = .error fault) (b' : Bytes) : s.Adds flat before b' where
  unwrapped := h.unwrapped
  unwrapped_before := h.unwrapped_before
  bytes hu budget ho' := by simp [ho] at ho'

end Splitting

/-- Every splitting keeps the bytes. -/
def Lossless (flat : Prop) (split : Splitter) : Prop :=
  ∀ budget b, (split budget b).Keeps flat b

variable {flat : Prop}

theorem keeps_nothing (b : Bytes) (fault : Fault) :
    (Splitting.nothing (.error fault)).Keeps flat b :=
  ⟨fun _ => rfl, by simp [Splitting.nothing]⟩

theorem lossless_whole (kind : String) : Lossless flat (whole kind) := fun budget b =>
  ⟨fun _ => rfl, by simp [whole, Splitting.bytes, Splitting.chunks]⟩

theorem lossless_splitUnwrapped (limit : Nat) (encoding : Compressed) (split : Splitter)
    (hf : ¬ flat) : Lossless flat (splitUnwrapped limit encoding split) := by
  intro budget b
  unfold splitUnwrapped
  split
  · exact keeps_nothing ..
  · exact keeps_nothing ..
  · exact ⟨fun h => absurd h hf, by simp [Splitting.unwrap]⟩

section Inner

variable (limit : Nat)

theorem lossless_splitUnframed (inner : Option Splitter) :
    Lossless (inner = none) (splitUnframed limit inner) := by
  intro budget b
  unfold splitUnframed
  split
  · split
    · exact lossless_splitUnwrapped limit .gzip _ (by simp) budget b
    · exact lossless_whole _ budget b
  · exact lossless_whole _ budget b
  · exact lossless_whole _ budget b

theorem lossless_splitDeclared (inner : Option (Option String → Splitter))
    (here : Option String → Splitter)
    (hhere : ∀ mediaType, Lossless (inner = none) (here mediaType)) (declared : Declared) :
    Lossless (inner = none) (splitDeclared limit inner here declared) := by
  unfold splitDeclared
  split
  · exact hhere _
  · rename_i encoding
    intro budget b
    obtain ⟨hunwrapped, hbytes⟩ := lossless_splitUnframed limit none budget b
    exact ⟨fun _ => hunwrapped rfl, hbytes⟩
  · exact lossless_splitUnwrapped limit _ _ (by simp)

end Inner

section Messages

variable {body : Declared → Splitter} {unframed : Splitter}
  (hbody : ∀ declared, Lossless flat (body declared)) (hunframed : Lossless flat unframed)

include hbody

theorem keeps_splitMessage (m : Http.Message) (budget : Nat) :
    (splitMessage body m budget).Keeps flat m.whole := by
  unfold splitMessage
  split
  · exact lossless_whole _ budget m.whole
  · rename_i b hb
    obtain ⟨hunwrapped, hbytes⟩ := hbody (.ofTexts m.contentEncoding m.contentType) budget b
    refine ⟨hunwrapped, fun hu budget' ho => ?_⟩
    rw [Splitting.bytes_embody, hbytes hu budget' ho, (Http.Message.body?_eq_some hb).1]
    rfl

include hunframed

/-- A series of messages and what follows it are added to what was found before. -/
theorem adds_splitMessages (before : Splitting) (kind : Http.Kind) (budget : Nat) (b : Bytes) :
    (splitMessages body unframed before kind budget b).Adds flat before b := by
  fun_induction splitMessages body unframed before kind budget b with
  | case1 before kind budget b fault hp => exact (keeps_nothing b fault).onto before
  | case2 before kind budget b m hp found fault ho =>
    exact ((keeps_splitMessage hbody m budget).onto before).of_error ho b
  | case3 before kind budget b m hp found budget' ho hempty =>
    have hb := (Http.Message.parse_eq hp).1
    rw [List.isEmpty_iff.1 hempty, List.append_nil] at hb
    rw [hb]
    exact (keeps_splitMessage hbody m budget).onto before
  | case4 before kind budget b m hp found budget' ho hempty kind' hk ih =>
    rw [(Http.Message.parse_eq hp).1]
    exact ((keeps_splitMessage hbody m budget).onto before).trans ih ho
  | case5 before kind budget b m hp found budget' ho hempty hk =>
    rw [(Http.Message.parse_eq hp).1]
    exact ((keeps_splitMessage hbody m budget).onto before).trans
      ((hunframed budget' m.following).onto found) ho

theorem lossless_splitMessages (kind : Http.Kind) :
    Lossless flat fun budget =>
      splitMessages body unframed (.nothing (.ok budget)) kind budget := by
  intro budget b
  obtain ⟨hunwrapped, -, hbytes⟩ :=
    adds_splitMessages hbody hunframed (.nothing (.ok budget)) kind budget b
  exact ⟨fun hf => hunwrapped hf rfl, hbytes⟩

end Messages

section Levels

variable (limit : Nat) (inner : Option Level)

theorem lossless_splitPlain {unframed : Splitter} {messages : Option (Http.Kind → Splitter)}
    (hunframed : Lossless flat unframed)
    (hmessages : ∀ split ∈ messages, ∀ kind, Lossless flat (split kind))
    (mediaType : Option String) : Lossless flat (splitPlain unframed messages mediaType) := by
  intro budget b
  unfold splitPlain
  split
  · rename_i hempty
    exact ⟨fun _ => rfl, fun _ _ _ => (List.isEmpty_iff.1 hempty).symm⟩
  split
  · exact lossless_whole _ budget b
  · split
    · rename_i split hsplit
      obtain ⟨split', hmem, hmap⟩ := Option.bind_eq_some_iff.1 hsplit
      obtain ⟨kind, -, rfl⟩ := Option.map_eq_some_iff.1 hmap
      exact hmessages split' hmem kind budget b
    · exact hunframed budget b

theorem lossless_splitNested : ∀ (room : Nat) (mediaType : Option String),
    Lossless (inner = none) (splitNested limit inner room mediaType)
  | 0, mediaType => by
    have hunframed := lossless_splitUnframed limit (inner.map fun split => split 0 none)
    rw [Option.map_eq_none_iff] at hunframed
    exact lossless_splitPlain hunframed (by simp) mediaType
  | room + 1, mediaType => by
    have hunframed := lossless_splitUnframed limit (inner.map fun split => split (room + 1) none)
    have hbody := lossless_splitDeclared limit (inner.map fun split => split room)
      (splitNested limit inner room)
    rw [Option.map_eq_none_iff] at hunframed hbody
    refine lossless_splitPlain hunframed ?_ mediaType
    rintro _ ⟨⟩ kind
    exact lossless_splitMessages (hbody (lossless_splitNested room)) hunframed kind

theorem lossless_splitWithin : ∀ (unwraps room : Nat) (mediaType : Option String),
    Lossless (unwraps = 0) (splitWithin limit unwraps room mediaType)
  | 0, room, mediaType => by
    simpa [splitWithin] using lossless_splitNested limit none room mediaType
  | unwraps + 1, room, mediaType => by
    simpa [splitWithin] using
      lossless_splitNested limit (some (splitWithin limit unwraps)) room mediaType

end Levels

theorem keeps_split (limits : Limits) (declared : Declared) (b : Bytes) :
    (split limits declared b).Keeps (limits.unwraps = 0) b := by
  have hinner : ((inner? limits.decompressed limits.unwraps).map fun level =>
      level maxMessageNesting) = none ↔ limits.unwraps = 0 := by
    rw [Option.map_eq_none_iff]
    unfold inner?
    split <;> simp_all
  have hwithin := lossless_splitWithin limits.decompressed limits.unwraps maxMessageNesting
  have h := lossless_splitDeclared limits.decompressed
    ((inner? limits.decompressed limits.unwraps).map fun level => level maxMessageNesting)
    (splitWithin limits.decompressed limits.unwraps maxMessageNesting)
  rw [hinner] at h
  exact h hwithin declared limits.decompressed b

/-- Without decompression, the pieces of content are the bytes that were classified, cut up. -/
theorem flatten_classify (limits : Limits) (encoding mediaType : Option String) (b : Bytes)
    {chunks : List Chunk} (h : classify limits encoding mediaType b = .ok chunks)
    (hunwrapped : limits.unwraps = 0 ∨
      (split limits (.ofTexts encoding mediaType) b).unwrapped = []) :
    (chunks.map (·.content)).flatten = b := by
  have hkeeps := keeps_split limits (.ofTexts encoding mediaType) b
  have hflat := hunwrapped.elim hkeeps.unwrapped id
  unfold classify Splitting.result at h
  generalize split limits (.ofTexts encoding mediaType) b = s at h hkeeps hflat
  cases ho : s.outcome with
  | error fault => simp [ho, Except.map] at h
  | ok budget =>
    simp only [ho, Except.map, Except.ok.injEq] at h
    rw [← h]
    exact hkeeps.bytes hflat budget ho

/-- Two requests in a row, the first with a body. -/
theorem flatten_classify_two_requests :
    ∃ chunks, classify ⟨1, 100⟩ none none (.ofText
        "POST / HTTP/1.1\r\nContent-Length: 2\r\n\r\nhiGET / HTTP/1.1\r\n\r\n") = .ok chunks ∧
      chunks.length = 3 ∧
      (chunks.map (·.content)).flatten = Bytes.ofText
        "POST / HTTP/1.1\r\nContent-Length: 2\r\n\r\nhiGET / HTTP/1.1\r\n\r\n" := by
  have hlength : (classify ⟨1, 100⟩ none none (.ofText
      "POST / HTTP/1.1\r\nContent-Length: 2\r\n\r\nhiGET / HTTP/1.1\r\n\r\n")).toOption.map
        List.length = some 3 := by
    decide +kernel
  generalize hb : Bytes.ofText _ = b at hlength
  cases h : classify ⟨1, 100⟩ none none b with
  | error fault => simp [h, Except.toOption] at hlength
  | ok chunks =>
    have hlength : chunks.length = 3 := by simpa [h, Except.toOption] using hlength
    exact ⟨chunks, rfl, hlength,
      flatten_classify ⟨1, 100⟩ none none b h (.inr (by subst hb; decide +kernel))⟩

end Trawl.Content
