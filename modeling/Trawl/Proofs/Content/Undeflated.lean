import Trawl.Proofs.Content.Pipelined

/-!
# Messages without deflated bodies

Where nothing that messages hold is called deflated, how much of the budget is left shows only where
it is too little. So messages that end by themselves, and give no more than the limit together, are
classified in a row as each of them is (`classify_flatten_of_undeflated`).
-/

namespace Trawl.Content

/-- What bytes hold: themselves, and the bodies of messages, what follows messages, and the data of
gzip members among it. -/
inductive Holds (b : Bytes) : Bytes → Prop
  | self : Holds b b
  | following {c : Bytes} {kind : Http.Kind} {m : Http.Message} : Holds b c →
      Http.Message.parse kind c = .ok m → Holds b m.following
  | body {c content : Bytes} {kind : Http.Kind} {m : Http.Message} : Holds b c →
      Http.Message.parse kind c = .ok m → m.body? = some content → Holds b content
  | member {c data : Bytes} {limit : Nat} : Holds b c →
      Compression.Gzip.decode limit c = .ok data → Holds b data

theorem Holds.trans {a b c : Bytes} (hb : Holds a b) (hc : Holds b c) : Holds a c := by
  induction hc with
  | self => exact hb
  | following _ hp ih => exact .following ih hp
  | body _ hp hcontent ih => exact .body ih hp hcontent
  | member _ hdecode ih => exact .member ih hdecode

/-- Whether no message that bytes hold calls its body deflated. -/
def IsUndeflated (b : Bytes) : Prop :=
  ∀ {c : Bytes} {kind : Http.Kind} {m : Http.Message}, Holds b c →
    Http.Message.parse kind c = .ok m → m.encoding? ≠ some .deflate

theorem IsUndeflated.of_holds {b c : Bytes} (h : IsUndeflated b) (hc : Holds b c) :
    IsUndeflated c :=
  fun hd hp => h (hc.trans hd) hp

theorem inherited_isUndeflated : Inherited False IsUndeflated where
  following h hp := h.of_holds (.following .self hp)
  body h hp hcontent := h.of_holds (.body .self hp hcontent)
  deflated h hp := h .self hp
  decoded {_ _ _ encoding} h hnot hdecode := by
    cases encoding with
    | gzip => exact h.of_holds (.member .self hdecode)
    | deflate => exact (hnot rfl).elim

/-- Messages that end by themselves, hold nothing that is called deflated and give no more than the
limit together are classified as each of them is. -/
theorem classify_flatten_of_undeflated (limits : Limits) (ms : List Bytes)
    (chunks : Bytes → List Chunk) (hundeflated : ∀ b ∈ ms, IsUndeflated b)
    (hmessage : ∀ b ∈ ms, isMessage b = true) (hends : ∀ b ∈ ms.dropLast, endsItself b = true)
    (hchunks : ∀ b ∈ ms, classify limits none none b = .ok (chunks b))
    (hbudget : unwrappedBy limits ms ≤ limits.decompressed) :
    classify limits none none ms.flatten = .ok (ms.flatMap chunks) := by
  obtain ⟨hcases, -⟩ :=
    flatten_cases inherited_isUndeflated limits hundeflated hmessage hends hchunks hbudget
  exact hcases.resolve_right fun hlarge => hlarge.1

/-! ### Messages with plain bodies -/

/-- Whether a gzip member may stand at the front. -/
def mayBeMember (b : Bytes) : Bool :=
  (Compression.Gzip.stream? b).isSome

/-- Whether neither a message nor a gzip member stands at the front. -/
def isOpaque (b : Bytes) : Bool :=
  !mayBeMember b && [Http.Kind.request, .response].all fun kind => !(Http.Message.parse kind b).isOk

/-- Whether all that bytes hold is a message whose body is opaque and is not called deflated. -/
def isFlat (b : Bytes) : Bool :=
  !mayBeMember b && [Http.Kind.request, .response].all fun kind =>
    match Http.Message.parse kind b with
    | .error _ => true
    | .ok m => m.encoding? ≠ some .deflate && isOpaque m.following && m.body?.all isOpaque

section Plain

variable {b : Bytes} {kind : Http.Kind} {m : Http.Message}

theorem mem_kinds (kind : Http.Kind) : kind ∈ [Http.Kind.request, .response] := by
  cases kind
  · exact List.mem_cons_self
  · exact List.mem_cons_of_mem _ List.mem_cons_self

theorem decode_of_not_mayBeMember (h : mayBeMember b = false) {limit : Nat} {data : Bytes} :
    Compression.Gzip.decode limit b ≠ .ok data := by
  rw [mayBeMember, Option.isSome_eq_false_iff, Option.isNone_iff_eq_none] at h
  simp [Compression.Gzip.decode, h]

theorem parse_of_isOpaque (h : isOpaque b = true) : Http.Message.parse kind b ≠ .ok m := by
  simp only [isOpaque, Bool.and_eq_true, List.all_eq_true] at h
  intro hp
  have hnot := h.2 kind (mem_kinds kind)
  rw [hp] at hnot
  cases hnot

theorem of_isFlat (h : isFlat b = true) (hp : Http.Message.parse kind b = .ok m) :
    m.encoding? ≠ some .deflate ∧ isOpaque m.following = true ∧
      ∀ content, m.body? = some content → isOpaque content = true := by
  simp only [isFlat, Bool.and_eq_true, List.all_eq_true] at h
  have hm := h.2 kind (mem_kinds kind)
  rw [hp] at hm
  simpa [Option.all_eq_true, and_assoc] using hm

/-- All else that a flat message holds is opaque. -/
theorem isOpaque_of_holds (h : isFlat b = true) {c : Bytes} (hc : Holds b c) :
    c = b ∨ isOpaque c = true := by
  induction hc with
  | self => exact .inl rfl
  | following _ hp ih =>
    rcases ih with rfl | hopaque
    · exact .inr (of_isFlat h hp).2.1
    · exact absurd hp (parse_of_isOpaque hopaque)
  | body _ hp hcontent ih =>
    rcases ih with rfl | hopaque
    · exact .inr ((of_isFlat h hp).2.2 _ hcontent)
    · exact absurd hp (parse_of_isOpaque hopaque)
  | member _ hdecode ih =>
    rcases ih with rfl | hopaque
    · simp only [isFlat, Bool.and_eq_true, Bool.not_eq_true'] at h
      exact absurd hdecode (decode_of_not_mayBeMember h.1)
    · simp only [isOpaque, Bool.and_eq_true, Bool.not_eq_true'] at hopaque
      exact absurd hdecode (decode_of_not_mayBeMember hopaque.1)

theorem isUndeflated_of_isFlat (h : isFlat b = true) : IsUndeflated b := by
  intro c kind m hc hp
  rcases isOpaque_of_holds h hc with rfl | hopaque
  · exact (of_isFlat h hp).1
  · exact absurd hp (parse_of_isOpaque hopaque)

end Plain

/-- A request without a body, and a response with one that is neither a message nor compressed. -/
example : isFlat (Bytes.ofText "GET / HTTP/1.1\r\n\r\n") = true ∧
    isFlat (Bytes.ofText "HTTP/1.1 200 OK\r\nContent-Length: 2\r\n\r\nhi") = true := by
  decide +kernel

end Trawl.Content
