import Trawl.Proofs.Content.Series

/-!
# Start lines within content

A start line is looked for at the start of every line, and where one is found the bytes are read as
a message from their first byte on. So bytes are one piece of content exactly if no line of them
starts with a start line (`classify_eq_unframed_iff`); otherwise what cannot be read as a message is
a fault. Behind a message only the first line counts, and the lines after it may hold anything.
-/

namespace Trawl.Content

/-! ## Where start lines are looked for -/

namespace Http.StartLine

variable {b : Bytes}

/-- No start line is found if and only if none stands at the front or behind a line feed. -/
theorem first?_eq_none_iff :
    first? b = none ↔
      here? b = none ∧ ∀ before line, b = before ++ lineFeed :: line → here? line = none := by
  fun_induction first? b with
  | case1 b kind hk => simp [hk]
  | case2 hnone => simp [hnone]
  | case3 b hnone hne ih =>
    rw [ih]
    simp only [hnone, true_and]
    by_cases hmem : lineFeed ∈ b
    · obtain ⟨first, hfirst, hb⟩ := exists_line hmem
      generalize nextLine b = next at hb ⊢
      subst hb
      constructor
      · rintro ⟨hnext, hlater⟩ before line hline
        rcases List.append_eq_append_iff.1 hline with ⟨c, rfl, hc⟩ | ⟨c, rfl, hc⟩
        · rcases c with _ | ⟨x, c⟩
          · obtain rfl := (List.cons.inj hc).2
            exact hnext
          · exact hlater c line (List.cons.inj hc).2
        · rcases c with _ | ⟨x, c⟩
          · obtain rfl := (List.cons.inj hc).2
            exact hnext
          · obtain rfl := (List.cons.inj hc).1
            exact absurd (by simp) hfirst
      · intro h
        exact ⟨h first next rfl, fun before line hline => h (first ++ lineFeed :: before) line (by
          rw [hline, List.append_assoc, List.cons_append])⟩
    · have hempty : here? [] = none := by decide +kernel
      rw [nextLine_of_not_mem hmem]
      exact ⟨fun _ before line hline => absurd (by simp [hline]) hmem,
        fun _ => ⟨hempty, fun before line hline => by simp at hline⟩⟩

end Http.StartLine

/-! ## What is no message -/

/-- The type of bytes that are no message. -/
def unframedKind (b : Bytes) : String :=
  (Signature.recognize? b).getD (if isPlainText b then plainTextKind else unknownKind)

theorem unframedKind_ne (b : Bytes) (kind : Http.Kind) : unframedKind b ≠ kind.name := by
  have hnames : ∀ name ∈ Signature.all.map (·.kind), name ≠ kind.name := by
    cases kind <;> decide +kernel
  unfold unframedKind
  rcases hr : Signature.recognize? b with _ | name
  · rw [Option.getD_none]
    split <;> cases kind <;> decide
  · obtain ⟨s, hs, rfl⟩ := Option.map_eq_some_iff.1 hr
    exact hnames _ (List.mem_map_of_mem (List.mem_of_find?_eq_some hs))

section Outermost

variable {limits : Limits} {b : Bytes}

theorem outerUnframed_of_not_gzip (hgzip : Signature.recognize? b ≠ some Signature.gzipKind)
    (budget : Nat) : outerUnframed limits budget b = whole (unframedKind b) budget b := by
  unfold outerUnframed splitUnframed unframedKind
  generalize Option.map _ _ = inner
  rcases hr : Signature.recognize? b with _ | kind
  · rfl
  · cases inner with
    | none => rfl
    | some split =>
      have hkind : kind ≠ Signature.gzipKind := fun he => hgzip (he ▸ hr)
      exact if_neg hkind

/-- With nothing declared, the first start line decides, wherever it stands. -/
theorem split_undeclared (hne : b ≠ []) :
    split limits (.ofTexts none none) b =
      match Http.StartLine.first? b with
      | some kind => splitMessages (outerBody limits) (outerUnframed limits)
          (.nothing (.ok limits.decompressed)) kind limits.decompressed b
      | none => outerUnframed limits limits.decompressed b := by
  have hlevel : split limits (.ofTexts none none) b =
      splitWithin limits.decompressed limits.unwraps maxMessageNesting none limits.decompressed b :=
    rfl
  rw [hlevel, splitWithin_eq_splitPlain, splitPlain, if_neg (by simpa using hne)]
  cases Http.StartLine.first? b <;> rfl

/-- A message gives a piece of its kind first. -/
theorem kind_of_splitMessages (body : Declared → Splitter) (unframed : Splitter) (budget : Nat)
    {kind : Http.Kind} {m : Http.Message} (hp : Http.Message.parse kind b = .ok m) :
    (splitMessages body unframed (.nothing (.ok budget)) kind budget b).chunks.head?.map (·.kind)
      = some kind.name := by
  obtain ⟨chunk, more, hfirst, hkind⟩ : ∃ chunk more,
      (splitMessage body m budget).chunks = chunk :: more ∧ chunk.kind = kind.name := by
    obtain ⟨head, next, stated, parts, -, -, -, rfl⟩ := Http.Message.parse_eq_ok_iff.1 hp
    unfold splitMessage
    split <;> exact ⟨_, _, rfl, rfl⟩
  rw [splitMessages_of_parse body unframed budget hp]
  split
  · rw [hfirst, List.head?_cons, Option.map_some, hkind]
  · have happend : ∀ next, ((splitMessage body m budget).append next).chunks
        = (splitMessage body m budget).chunks ++ next.chunks := fun _ => List.map_append
    rw [happend, hfirst, List.cons_append, List.head?_cons, Option.map_some, hkind]

theorem classify_of_parse_error {kind : Http.Kind} {fault : Fault}
    (hfirst : Http.StartLine.first? b = some kind)
    (hp : Http.Message.parse kind b = .error fault) :
    classify limits none none b = .error fault := by
  have hnil : Http.StartLine.first? [] = none := by decide +kernel
  have hne : b ≠ [] := by
    rintro rfl
    rw [hnil] at hfirst
    cases hfirst
  rw [classify, split_undeclared hne, hfirst]
  dsimp only
  rw [splitMessages_of_error _ _ _ _ hp]
  rfl

theorem classify_eq_unframed_of_first?_none (hne : b ≠ [])
    (hgzip : Signature.recognize? b ≠ some Signature.gzipKind)
    (h : Http.StartLine.first? b = none) :
    classify limits none none b = .ok [⟨unframedKind b, b⟩] := by
  rw [classify, split_undeclared hne, h]
  dsimp only
  rw [outerUnframed_of_not_gzip hgzip]
  rfl

/-- Where a start line is found, what comes out is not the bytes as they are. -/
theorem classify_ne_unframed_of_first? {kind : Http.Kind}
    (hfirst : Http.StartLine.first? b = some kind) :
    classify limits none none b ≠ .ok [⟨unframedKind b, b⟩] := by
  intro h
  cases hp : Http.Message.parse kind b with
  | error fault =>
    rw [classify_of_parse_error hfirst hp] at h
    cases h
  | ok m =>
    have hne : b ≠ [] := List.ne_nil_of_mem (Http.Message.lineFeed_mem hp)
    rw [classify, split_undeclared hne, hfirst, Splitting.result_eq_ok_iff] at h
    have hkind := kind_of_splitMessages (outerBody limits) (outerUnframed limits)
      limits.decompressed hp
    rw [h.2] at hkind
    exact unframedKind_ne b kind (Option.some.inj hkind)

/-- Bytes behind a message are one piece where their first line is no start line. -/
theorem classify_message_append {message : Bytes} (hmessage : isMessage message = true)
    (hends : endsItself message = true) (hne : b ≠ [])
    (hgzip : Signature.recognize? b ≠ some Signature.gzipKind)
    (h : Http.StartLine.leading? b = none) :
    classify limits none none (message ++ b)
      = (classify limits none none message).map (· ++ [⟨unframedKind b, b⟩]) := by
  obtain ⟨kind, m, hkind, hp, -⟩ := exists_of_isMessage hmessage
  have hline := Http.Message.lineFeed_mem hp
  have hleading : (Http.StartLine.leading? message).isSome := by rw [hkind]; rfl
  have hfollowing : ∀ left, splitOuter limits left b = whole (unframedKind b) left b := by
    intro left
    rw [splitOuter, splitFollowing, if_neg (by simpa using hne), h]
    exact outerUnframed_of_not_gzip hgzip left
  unfold classify
  rw [split_eq_splitOuter (.inr (by rwa [Http.StartLine.leading?_append b hline])),
    split_eq_splitOuter (.inr hleading), splitOuter,
    splitFollowing_append _ _ hmessage (.inr hends), ← splitOuter]
  cases ho : (splitOuter limits limits.decompressed message).outcome with
  | error fault => simp only [Splitting.result_of_error ho]; rfl
  | ok left =>
    dsimp only
    rw [hfollowing, Splitting.result_append, Splitting.result, Splitting.result, ho]
    rfl

/-- Bytes with nothing declared that are not compressed are one piece exactly if no line of them
starts with a start line. Where one does, and no message can be read from the first byte on, that is
a fault of them all. Behind a message they are one piece whatever stands in their later lines. -/
theorem classify_eq_unframed_iff (limits : Limits) (hne : b ≠ [])
    (hgzip : Signature.recognize? b ≠ some Signature.gzipKind) :
    (classify limits none none b = .ok [⟨unframedKind b, b⟩] ↔
      Http.StartLine.here? b = none ∧
        ∀ before line, b = before ++ Http.lineFeed :: line → Http.StartLine.here? line = none) ∧
    (∀ kind fault, Http.StartLine.first? b = some kind →
      Http.Message.parse kind b = .error fault → classify limits none none b = .error fault) ∧
    (Http.StartLine.leading? b = none → ∀ message, isMessage message = true →
      endsItself message = true → classify limits none none (message ++ b)
        = (classify limits none none message).map (· ++ [⟨unframedKind b, b⟩])) := by
  refine ⟨?_, fun kind fault => classify_of_parse_error, fun h message hmessage hends =>
    classify_message_append hmessage hends hne hgzip h⟩
  rw [← Http.StartLine.first?_eq_none_iff]
  cases hfirst : Http.StartLine.first? b with
  | none => simpa using classify_eq_unframed_of_first?_none hne hgzip hfirst
  | some kind => simpa using classify_ne_unframed_of_first? hfirst

/-- A request that a log quotes: a fault of the log by itself, a line of it behind a message. -/
theorem quoted_request_behind_message :
    let log := Bytes.ofText "log\r\nGET / HTTP/1.1\r\n\r\n"
    let message := Bytes.ofText "HTTP/1.1 204 No Content\r\n\r\n"
    classify ⟨5, 52428800⟩ none none log = .error (.head .token) ∧
      classify ⟨5, 52428800⟩ none none (message ++ log) =
        .ok [⟨"http-response", message⟩, ⟨"text/plain", log⟩] := by
  intro log message
  obtain ⟨-, hfault, hbehind⟩ := classify_eq_unframed_iff ⟨5, 52428800⟩ (b := log)
    (by decide +kernel) (by decide +kernel)
  refine ⟨hfault .request _ (by decide +kernel) (by decide +kernel), ?_⟩
  rw [hbehind (by decide +kernel) message (by decide +kernel) (by decide +kernel)]
  decide +kernel

/-- The first line is no start line, no signature fits, and a later line makes it a fault. -/
theorem quoted_request_discards_text :
    let b := Bytes.ofText "junk\r\nGET / HTTP/1.1\r\n\r\n"
    Signature.recognize? b = none ∧ Http.StartLine.here? b = none ∧
      unframedKind b = plainTextKind ∧
      classify ⟨5, 52428800⟩ none none b = .error (.head .token) := by
  decide +kernel

end Outermost

end Trawl.Content
