import Mathlib.Tactic.SplitIfs
import Trawl.Content.Http.Message
import Trawl.Proofs.Bytes

/-!
# Messages that more bytes follow

A scan only ends behind a byte that it has seen, so that it finds the same where more bytes follow
(`Scan.Steady`), and the end of a chunked body is where it was. Hence a message is read the same
unless it takes up everything that follows (`parse_append`).
-/

namespace Trawl

namespace Content.Http

/-- The same place where more bytes follow. -/
def Cursor.before (c : Cursor) (more : Bytes) : Cursor :=
  ⟨c.offset, c.rest ++ more⟩

namespace Scan

/-- Whether a scan that finds something finds it where more bytes follow as well. -/
def Steady {α : Type} (scan : Scan α) : Prop :=
  ∀ (c c' : Cursor) (value : α) (more : Bytes), scan c = .found value c' →
    scan (c.before more) = .found value (c'.before more)

variable {α β : Type}

theorem steady_pure (value : α) : (pure value : Scan α).Steady := by
  intro c c' v more h
  simp only [pure, Outcome.found.injEq] at h
  obtain ⟨rfl, rfl⟩ := h
  rfl

theorem steady_fail (fault : HeadFault) : (fail fault : Scan α).Steady := by
  intro c c' v more h
  simp [fail] at h

theorem Steady.bind {scan : Scan α} {next : α → Scan β} (h : scan.Steady)
    (hn : ∀ value, (next value).Steady) : (scan >>= next).Steady := by
  intro c c' v more hs
  simp only [Bind.bind] at hs ⊢
  split at hs
  · rename_i value c₁ h₁
    rw [h c c₁ value more h₁]
    exact hn value c₁ c' v more hs
  · cases hs
  · cases hs

theorem Steady.ite {p : Prop} [Decidable p] {scan scan' : Scan α} (h : scan.Steady)
    (h' : scan'.Steady) : (if p then scan else scan').Steady := by
  split
  · exact h
  · exact h'

theorem steady_octet : octet.Steady := by
  rintro ⟨offset, rest⟩ c' v more h
  cases rest with
  | nil => cases h
  | cons b rest =>
    cases h
    rfl

theorem steady_expect (p : UInt8 → Bool) (fault : HeadFault) : (expect p fault).Steady :=
  steady_octet.bind fun b => .ite (steady_pure b) (steady_fail fault)

theorem steady_spanFrom {p : UInt8 → Bool} {value : Bytes} {c : Cursor} (more : Bytes) :
    ∀ {done b : Bytes} {offset : Nat}, spanFrom p done offset b = .found value c →
      spanFrom p done offset (b ++ more) = .found value (c.before more)
  | _, [], _, h => by cases h
  | done, b :: rest, offset, h => by
    simp only [spanFrom] at h
    simp only [List.cons_append, spanFrom]
    split at h <;> rename_i hp
    · rw [if_pos hp]
      exact steady_spanFrom more h
    · rw [if_neg hp]
      cases h
      rfl

theorem steady_span (p : UInt8 → Bool) : (span p).Steady := fun _ _ _ more h =>
  steady_spanFrom more h

end Scan

/-! ## Heads -/

namespace Head

open Scan

theorem steady_feed (fault : HeadFault) : (feed fault).Steady :=
  (steady_expect _ fault).bind fun _ => steady_pure ()

theorem steady_lineEnd (fault : HeadFault) : (lineEnd fault).Steady :=
  steady_octet.bind fun _ => .ite (steady_feed fault) (.ite (steady_pure ()) (steady_fail fault))

theorem steady_skipEmptyLines {offset : Nat} {b : Bytes} {value : Unit} {c : Cursor} (more : Bytes)
    (h : skipEmptyLines offset b = .found value c) :
    skipEmptyLines offset (b ++ more) = .found value (c.before more) := by
  fun_induction skipEmptyLines offset b with
  | case1 => cases h
  | case2 offset rest ih =>
    rw [List.cons_append, skipEmptyLines.eq_def]
    exact ih h
  | case3 => cases h
  | case4 offset hreturn rest ih =>
    rw [List.cons_append, skipEmptyLines.eq_def]
    exact ih h
  | case5 => cases h
  | case6 offset b rest hfeed hreturn =>
    cases h
    rw [List.cons_append, skipEmptyLines.eq_def]
    dsimp only
    rw [if_neg hfeed, if_neg hreturn]
    rfl

theorem steady_emptyLines : emptyLines.Steady := fun _ _ _ more h =>
  steady_skipEmptyLines more h

theorem steady_method : method.Steady :=
  (steady_expect _ _).bind fun _ => (steady_span _).bind fun _ => (steady_expect _ _).bind fun _ =>
    steady_pure ()

theorem steady_target : target.Steady :=
  (steady_span _).bind fun _ => (steady_expect _ _).bind fun _ =>
    .ite (steady_fail _) (steady_pure ())

/-- A version is only found where all of its bytes are there. -/
theorem steady_version : version.Steady := by
  intro c c' v more h
  simp only [version] at h
  split at h
  · rename_i text rest hs
    simp only [version, Cursor.before, Bytes.split?_append more hs]
    split at h <;> rename_i hv
    · rw [if_pos hv]
      cases h
      rfl
    · cases h
  · split at h <;> cases h

theorem steady_digit : digit.Steady :=
  (steady_expect _ _).bind fun _ => steady_pure _

theorem steady_code : code.Steady :=
  steady_digit.bind fun _ => steady_digit.bind fun _ => steady_digit.bind fun _ => steady_pure _

theorem steady_reason : reason.Steady :=
  steady_octet.bind fun _ => .ite ((steady_span _).bind fun _ => steady_lineEnd _)
    (.ite (steady_feed _) (.ite (steady_pure ()) (steady_fail _)))

theorem steady_headerLine : headerLine.Steady :=
  steady_octet.bind fun _ => .ite ((steady_feed _).bind fun _ => steady_pure none)
    (.ite (steady_pure none) (.ite
      ((steady_span _).bind fun _ => (steady_expect _ _).bind fun _ => (steady_span _).bind
        fun _ => (steady_span _).bind fun _ => (steady_lineEnd _).bind fun _ => steady_pure _)
      (steady_fail _)))

theorem steady_headerLines : ∀ room : Nat, (headerLines room).Steady
  | 0 => steady_headerLine.bind fun
    | none => steady_pure []
    | some _ => steady_fail _
  | room + 1 => steady_headerLine.bind fun
    | none => steady_pure []
    | some _ => (steady_headerLines room).bind fun _ => steady_pure _

theorem steady_startLine : ∀ kind : Kind, (startLine kind).Steady
  | .request => steady_method.bind fun _ => steady_target.bind fun _ => steady_version.bind fun _ =>
    (steady_lineEnd _).bind fun _ => steady_pure none
  | .response => steady_version.bind fun _ => (steady_expect _ _).bind fun _ => steady_code.bind
    fun _ => steady_reason.bind fun _ => steady_pure _

theorem steady_scan (kind : Kind) : (scan kind).Steady :=
  steady_emptyLines.bind fun _ => (steady_startLine kind).bind fun _ =>
    (steady_headerLines maxHeaders).bind fun _ => steady_pure _

end Head

/-! ## Bodies -/

namespace Chunked

theorem sizeLineFrom_append {part : Part} {size length : Nat} {b rest : Bytes} {line : SizeLine}
    (more : Bytes) (h : sizeLineFrom part size length b = some (line, rest)) :
    sizeLineFrom part size length (b ++ more) = some (line, rest ++ more) := by
  fun_induction sizeLineFrom part size length b <;> simp_all [sizeLineFrom]

theorem trailerEnd?_append {fresh : Bool} {position n : Nat} {b : Bytes} (more : Bytes)
    (h : trailerEnd? fresh position b = some n) :
    trailerEnd? fresh position (b ++ more) = some n := by
  fun_induction trailerEnd? fresh position b <;> simp_all [trailerEnd?]

theorem afterChunk?_append {size : Nat} {b rest : Bytes} (more : Bytes)
    (h : afterChunk? size b = some rest) : afterChunk? size (b ++ more) = some (rest ++ more) := by
  unfold afterChunk? at h
  split at h
  · rename_i hs
    split at h <;> rename_i hend
    · cases h
      simp only [afterChunk?, Bytes.split?_append more hs, List.cons_append, if_pos hend]
    · cases h
  · cases h

theorem bodyEnd?_of_sizeLine {position : Nat} {b rest : Bytes} {line : SizeLine}
    (h : sizeLine? b = some (line, rest)) :
    bodyEnd? position b =
      if line.size = 0 then trailerEnd? true (position + line.length) rest
      else (afterChunk? line.size rest).bind
        (bodyEnd? (position + line.length + line.size + 2)) := by
  rw [bodyEnd?]
  split
  · rename_i hl
    rw [h] at hl
    cases hl
  · rename_i hl
    rw [h] at hl
    cases hl
    split_ifs
    · rfl
    · split <;> rename_i hc <;> rw [hc] <;> rfl

theorem bodyEnd?_append {position n : Nat} {b : Bytes} (more : Bytes)
    (h : bodyEnd? position b = some n) : bodyEnd? position (b ++ more) = some n := by
  fun_induction bodyEnd? position b with
  | case1 => cases h
  | case2 position b line rest hl hzero =>
    rw [bodyEnd?_of_sizeLine (sizeLineFrom_append more hl), if_pos hzero]
    exact trailerEnd?_append more h
  | case3 => cases h
  | case4 position b line rest hl hzero rest' hc ih =>
    rw [bodyEnd?_of_sizeLine (sizeLineFrom_append more hl), if_neg hzero,
      afterChunk?_append more hc]
    exact ih h

end Chunked

namespace Message

/-- Bytes that follow are not part of a body, unless the body goes on to the end. -/
theorem splitBody_append {framing : Framing} {rest framed following : Bytes} (more : Bytes)
    (hframing : framing ≠ .endless) (h : splitBody framing rest = .ok (framed, following)) :
    splitBody framing (rest ++ more) = .ok (framed, following ++ more) := by
  cases framing with
  | chunked =>
    simp only [splitBody] at h ⊢
    split at h <;> rename_i hparts
    · cases h
    · cases h
      obtain ⟨n, hn, hs⟩ := Option.bind_eq_some_iff.1 hparts
      rw [Chunked.length?, Chunked.bodyEnd?_append more hn, Option.bind_some,
        Bytes.split?_append more hs]
  | counted length =>
    simp only [splitBody] at h ⊢
    split at h <;> rename_i hs
    · cases h
    · cases h
      rw [Bytes.split?_append more hs]
  | bare =>
    cases h
    rfl
  | endless => exact absurd rfl hframing

/-- The message with a head and the bytes that are framed after it and follow it. -/
def ofParts (kind : Kind) (bytes : Bytes) (head : Head) (framing : Framing)
    (parts : Bytes × Bytes) : Message where
  kind
  head := bytes
  framed := parts.1
  verbatim := framing ≠ .chunked
  following := parts.2
  contentType := (value? nameContentType head.headers).map .ofList
  contentEncoding := (value? nameContentEncoding head.headers).map .ofList

theorem parse_eq_ok_iff {kind : Kind} {b : Bytes} {m : Message} :
    parse kind b = .ok m ↔ ∃ head next stated parts, Head.scan kind ⟨0, b⟩ = .found head next ∧
      framing kind head = .ok stated ∧ splitBody stated next.rest = .ok parts ∧
      m = ofParts kind (b.take next.offset) head stated parts := by
  constructor
  · intro h
    unfold parse at h
    split at h
    · cases h
    · cases h
    · rename_i head next hs
      split at h
      · cases h
      · rename_i stated hf
        split at h
        · cases h
        · rename_i framed following hb
          cases h
          exact ⟨head, next, stated, (framed, following), hs, hf, hb, rfl⟩
  · rintro ⟨head, next, stated, ⟨framed, following⟩, hs, hf, hb, rfl⟩
    simp only [parse, hs, hf, hb]
    rfl

/-- The framing that the head at the front states. -/
def framing? (kind : Kind) (b : Bytes) : Option Framing :=
  match Head.scan kind ⟨0, b⟩ with
  | .found head _ => (framing kind head).toOption
  | _ => none

/-- A message with an end of its own is the same where more bytes follow it. -/
theorem parse_append {kind : Kind} {b : Bytes} {m : Message} (more : Bytes)
    (h : parse kind b = .ok m) (hend : framing? kind b ≠ some .endless) :
    parse kind (b ++ more) = .ok { m with following := m.following ++ more } := by
  obtain ⟨head, next, stated, parts, hs, hf, hb, rfl⟩ := parse_eq_ok_iff.1 h
  have hstated : stated ≠ .endless := by
    rintro rfl
    simp [framing?, hs, hf, Except.toOption] at hend
  have htake : (b ++ more).take next.offset = b.take next.offset := by
    obtain ⟨passed, hr, ho, -⟩ := Head.passes_scan kind _ _ _ hs
    have hlength := congrArg List.length hr
    simp only [List.length_append] at hlength ho
    exact List.take_append_of_le_length (by omega)
  refine parse_eq_ok_iff.2 ⟨head, next.before more, stated, (parts.1, parts.2 ++ more),
    Head.steady_scan kind _ _ _ more hs, hf, splitBody_append more hstated hb, ?_⟩
  rw [Cursor.before, htake]
  rfl

end Message

end Content.Http

end Trawl
