import Trawl.Proofs.Content.Series

/-!
# Responses that never have a body

A response whose status says that it has no body ends with its head exactly where the head states no
body either (`bodyless_ends_with_head_iff`). Chunking and a length count before the status: a head
that states one of them takes what follows it for its body, or is at fault where nothing follows.
-/

namespace Trawl.Content

namespace Http

namespace Head

/-- Whether a head states a chunked body. -/
def statesChunks (head : Head) : Bool :=
  ((Message.value? Message.nameTransferEncoding head.headers).map Message.isChunked).getD false

/-- The length of the body that a head states. -/
def statedLength? (head : Head) : Option Nat :=
  (Message.value? Message.nameContentLength head.headers).bind Message.length?

/-- Whether a head states that bytes of a body follow it. -/
def statesBody (head : Head) : Bool :=
  head.statesChunks || head.statedLength?.any (· ≠ 0)

/-- Whether a head is that of a response that never has a body, and states a length only as a
number. -/
structure Bodyless (head : Head) : Prop where
  status : head.status.any Message.isBodyless = true
  length : (Message.value? Message.nameContentLength head.headers).all
    (fun value => (Message.length? value).isSome) = true

/-- What the head states counts before the status. -/
theorem Bodyless.framing {head : Head} (h : head.Bodyless) :
    Message.framing .response head = .ok (if head.statesChunks then .chunked
      else match head.statedLength? with
        | some n => .counted n
        | none => .bare) := by
  have hstatus : (head.status.map Message.isBodyless).getD false = true := by
    have := h.status
    cases hs : head.status <;> simp_all
  have hlength := h.length
  simp only [Message.framing, hstatus, Bool.or_true, if_true, statesChunks, statedLength?]
  cases hv : Message.value? Message.nameContentLength head.headers with
  | none => rfl
  | some value =>
    obtain ⟨n, hn⟩ : ∃ n, Message.length? value = some n := by
      simpa [hv, Option.isSome_iff_exists] using hlength
    simp only [Option.bind_some, hn]

end Head

namespace Message

variable {head : Head} {b : Bytes}

theorem parse_of_not_statesBody (h : head.Bodyless) (hbody : head.statesBody = false)
    (hs : Head.scan .response ⟨0, b⟩ = .found head ⟨b.length, []⟩) (following : Bytes) :
    ∃ m, parse .response (b ++ following) = .ok m ∧ m.kind = .response ∧ m.head = b ∧
      m.framed = [] ∧ m.following = following := by
  rw [Head.statesBody, Bool.or_eq_false_iff] at hbody
  have hscan := Head.steady_scan .response _ _ _ following hs
  have hsplit : ∃ stated, framing .response head = .ok stated ∧
      splitBody stated following = .ok ([], following) := by
    refine ⟨_, h.framing, ?_⟩
    rw [hbody.1]
    cases hn : head.statedLength? with
    | none => rfl
    | some n =>
      obtain rfl : n = 0 := by simpa [hn] using hbody.2
      simp [splitBody, Bytes.split?]
  obtain ⟨stated, hframing, hsplit⟩ := hsplit
  refine ⟨_, parse_eq_ok_iff.2 ⟨head, _, stated, ([], following), hscan, hframing, hsplit, rfl⟩,
    rfl, ?_, rfl, rfl⟩
  exact List.take_left' rfl

theorem parse_of_statesBody (h : head.Bodyless) (hbody : head.statesBody = true)
    (hs : Head.scan .response ⟨0, b⟩ = .found head ⟨b.length, []⟩) :
    ∃ fault, (fault = .malformedChunks ∨ ∃ n, fault = .truncatedBody n 0) ∧
      parse .response b = .error fault := by
  rw [Head.statesBody, Bool.or_eq_true] at hbody
  simp only [parse, hs, h.framing]
  by_cases hchunks : head.statesChunks = true
  · have hsplit : splitBody .chunked [] = .error .malformedChunks := by
      simp [splitBody, Chunked.length?, Chunked.bodyEnd?, Chunked.sizeLine?, Chunked.sizeLineFrom]
    refine ⟨_, .inl rfl, ?_⟩
    rw [if_pos hchunks, hsplit]
  · cases hn : head.statedLength? with
    | none => simp [hchunks, hn] at hbody
    | some n =>
      have hne : n ≠ 0 := by simpa [hchunks, hn] using hbody
      have hsplit : splitBody (.counted n) [] = .error (.truncatedBody n 0) := by
        simp [splitBody, Bytes.split?, hne.symm]
      refine ⟨_, .inr ⟨n, rfl⟩, ?_⟩
      rw [if_neg hchunks]
      dsimp only
      rw [hsplit]

end Message

end Http

variable {b : Bytes} {head : Http.Head}

/-- A response that has no body is one piece, and what follows it is split as if it stood alone. -/
theorem splitOuter_of_not_statesBody (limits : Limits)
    (hstart : Http.StartLine.leading? b = some .response)
    (hs : Http.Head.scan .response ⟨0, b⟩ = .found head ⟨b.length, []⟩) (h : head.Bodyless)
    (hbody : head.statesBody = false) (budget : Nat) (following : Bytes) :
    splitOuter limits budget (b ++ following) =
      (whole "http-response" budget b).append (splitOuter limits budget following) := by
  obtain ⟨m, hp, hkind, hhead, hframed, hfollowing⟩ :=
    Http.Message.parse_of_not_statesBody h hbody hs following
  have hline : Http.lineFeed ∈ b := Http.Head.endsLine_scan _ _ _ _ hs
  have hne : b ++ following ≠ [] := List.append_ne_nil_of_left_ne_nil (List.ne_nil_of_mem hline) _
  have hmessage : splitMessage (outerBody limits) m budget = whole "http-response" budget b := by
    have hbody? : m.body? = none := by simp [Http.Message.body?, hframed]
    have hwhole : m.whole = b := by rw [Http.Message.whole, hhead, hframed, List.append_nil]
    simp only [splitMessage, hbody?, hwhole, hkind]
    rfl
  rw [splitOuter, splitFollowing_of_leading? _ _ hne
    ((Http.StartLine.leading?_append following hline).trans hstart),
    splitMessages_of_parse _ _ budget hp, hmessage, hfollowing]
  rfl

/-- A response that never has a body ends with its head, whatever follows it, exactly if its head
states no body. A message behind it is then classified by itself. A head that states a body lacks it
where nothing follows, and that is a fault. -/
theorem bodyless_ends_with_head_iff
    (hstart : Http.StartLine.leading? b = some .response)
    (hs : Http.Head.scan .response ⟨0, b⟩ = .found head ⟨b.length, []⟩) (h : head.Bodyless) :
    (head.statesBody = false ↔ ∀ following, ∃ m,
      Http.Message.parse .response (b ++ following) = .ok m ∧ m.head = b ∧ m.framed = [] ∧
        m.following = following) ∧
    (head.statesBody = false → ∀ limits following,
      following = [] ∨ (Http.StartLine.leading? following).isSome →
        classify limits none none (b ++ following) =
          (classify limits none none following).map (⟨"http-response", b⟩ :: ·)) ∧
    (head.statesBody = true → ∃ fault,
      (fault = .malformedChunks ∨ ∃ n, fault = .truncatedBody n 0) ∧
      Http.Message.parse .response b = .error fault ∧
      ∀ limits, classify limits none none b = .error fault) := by
  refine ⟨⟨fun hbody following => ?_, fun hall => ?_⟩, fun hbody limits following hfollowing => ?_,
    fun hbody => ?_⟩
  · obtain ⟨m, hp, -, hm⟩ := Http.Message.parse_of_not_statesBody h hbody hs following
    exact ⟨m, hp, hm⟩
  · -- Without anything behind the head, a body that it states is missing.
    by_contra hbody
    obtain ⟨fault, -, hp⟩ := Http.Message.parse_of_statesBody h (by simpa using hbody) hs
    obtain ⟨m, hp', -⟩ := hall []
    rw [List.append_nil, hp] at hp'
    cases hp'
  · have hline : Http.lineFeed ∈ b := Http.Head.endsLine_scan _ _ _ _ hs
    have hleading : (Http.StartLine.leading? (b ++ following)).isSome := by
      rw [Http.StartLine.leading?_append following hline, hstart]
      rfl
    unfold classify
    rw [split_eq_splitOuter (.inr hleading), split_eq_splitOuter hfollowing,
      splitOuter_of_not_statesBody limits hstart hs h hbody, Splitting.result_append]
    rfl
  · obtain ⟨fault, hfault, hp⟩ := Http.Message.parse_of_statesBody h hbody hs
    refine ⟨fault, hfault, hp, fun limits => ?_⟩
    have hne : b ≠ [] := List.ne_nil_of_mem (Http.Head.endsLine_scan _ _ _ _ hs)
    unfold classify
    rw [split_eq_splitOuter (.inr (Option.isSome_of_eq_some hstart)), splitOuter,
      splitFollowing_of_leading? _ _ hne hstart, splitMessages_of_error _ _ _ _ hp]
    rfl

/-- A response to a conditional request that states the length of what it leaves out. -/
theorem bodyless_ends_with_head_not_modified :
    ∃ b head, head.Bodyless ∧ Http.Head.statesBody head = true ∧
      ∃ fault, (fault = .malformedChunks ∨ ∃ n, fault = .truncatedBody n 0) ∧
        Http.Message.parse .response b = .error fault ∧
        ∀ limits, classify limits none none b = .error fault := by
  let b : Bytes := Bytes.ofText "HTTP/1.1 304 Not Modified\r\nContent-Length: 18\r\n\r\n"
  let head : Http.Head := ⟨some 304, [⟨Bytes.ofText "Content-Length", Bytes.ofText "18"⟩]⟩
  have hbodyless : head.Bodyless := ⟨by decide +kernel, by decide +kernel⟩
  have hbody : head.statesBody = true := by decide +kernel
  exact ⟨b, head, hbodyless, hbody, (bodyless_ends_with_head_iff (by decide +kernel)
    (by decide +kernel) hbodyless).2.2 hbody⟩

/-- The length that such a response states takes in the request behind it, and is a fault where
there is none. -/
theorem not_modified_takes_body :
    ∃ b next head, Http.Head.scan .response ⟨0, b⟩ = .found head ⟨b.length, []⟩ ∧
      head.status = some 304 ∧ head.Bodyless ∧ Http.StartLine.leading? next = some .request ∧
      (Http.Message.parse .response (b ++ next)).map (·.framed) = .ok next ∧
      classify ⟨5, 52428800⟩ none none b = .error (.truncatedBody 18 0) := by
  let b : Bytes := Bytes.ofText "HTTP/1.1 304 Not Modified\r\nContent-Length: 18\r\n\r\n"
  let head : Http.Head := ⟨some 304, [⟨Bytes.ofText "Content-Length", Bytes.ofText "18"⟩]⟩
  exact ⟨b, Bytes.ofText "GET / HTTP/1.1\r\n\r\n", head, by decide +kernel, rfl,
    ⟨by decide +kernel, by decide +kernel⟩, by decide +kernel, by decide +kernel, by decide +kernel⟩

end Trawl.Content
