import Trawl.Proofs.Content.StartLine
import Trawl.Proofs.Content.Transparency

/-!
# One message after the other

Splitting messages in a row is splitting the first one and then what follows it, with what it leaves
of the budget: what was found before only stands before what is found next
(`splitMessages_eq_append`). So a message that has an end of its own is split as if nothing followed
it, and what follows it as if nothing stood before it (`splitFollowing_append`).
-/

namespace Trawl.Content

namespace Splitting

/-- What was found, and then what was found next. -/
def append (s next : Splitting) : Splitting where
  pieces := s.pieces ++ next.pieces
  unwrapped := s.unwrapped ++ next.unwrapped
  outcome := next.outcome

@[simp]
theorem outcome_onto (s before : Splitting) : (s.onto before).outcome = s.outcome :=
  rfl

@[simp]
theorem inOrder_onto (s before : Splitting) :
    (s.onto before).inOrder = before.inOrder.append s := by
  simp [inOrder, onto, append, List.reverseAux_eq]

@[simp]
theorem inOrder_nothing (outcome : Except Fault Nat) :
    (nothing outcome).inOrder = nothing outcome :=
  rfl

@[simp]
theorem nothing_append (outcome : Except Fault Nat) (s : Splitting) :
    (nothing outcome).append s = s := by
  simp [append, nothing]

theorem append_nothing {s : Splitting} {outcome : Except Fault Nat} (h : s.outcome = outcome) :
    s.append (nothing outcome) = s := by
  subst h
  simp [append, nothing]

theorem result_of_error {s : Splitting} {fault : Fault} (h : s.outcome = .error fault) :
    s.result = .error fault := by
  rw [result, h]
  rfl

theorem result_eq_ok_iff {s : Splitting} {found : List Chunk} :
    s.result = .ok found ↔ (∃ left, s.outcome = .ok left) ∧ s.chunks = found := by
  unfold result
  cases s.outcome <;> simp [Except.map]

theorem result_append (s next : Splitting) :
    (s.append next).result = next.result.map (s.chunks ++ ·) := by
  simp only [result, append, chunks, List.map_append]
  cases next.outcome <;> rfl

theorem append_assoc (s t u : Splitting) : (s.append t).append u = s.append (t.append u) := by
  simp [append]

end Splitting

/-- Whether bytes are one message, with a start line in the first line. -/
def isMessage (b : Bytes) : Bool :=
  match Http.StartLine.leading? b with
  | none => false
  | some kind =>
    match Http.Message.parse kind b with
    | .error _ => false
    | .ok m => m.following.isEmpty

theorem exists_of_isMessage {b : Bytes} (h : isMessage b = true) :
    ∃ kind m, Http.StartLine.leading? b = some kind ∧ Http.Message.parse kind b = .ok m ∧
      m.following = [] := by
  unfold isMessage at h
  split at h
  · cases h
  · rename_i kind hkind
    split at h
    · cases h
    · rename_i m hp
      exact ⟨kind, m, hkind, hp, List.isEmpty_iff.1 h⟩

/-- Whether a message has an end of its own, so that it does not go on to the end of the bytes. -/
def endsItself (b : Bytes) : Bool :=
  match Http.StartLine.leading? b with
  | none => false
  | some kind => Http.Message.framing? kind b ≠ some .endless

section Series

variable (body : Declared → Splitter) (unframed : Splitter)

/-- Splits what follows a message. -/
def splitFollowing : Splitter := fun budget b =>
  if b.isEmpty then .nothing (.ok budget)
  else
    match Http.StartLine.leading? b with
    | some kind => splitMessages body unframed (.nothing (.ok budget)) kind budget b
    | none => unframed budget b

/-- What was found before only stands before what is found. -/
theorem splitMessages_eq_append (before : Splitting) (kind : Http.Kind) (budget : Nat) (b : Bytes) :
    splitMessages body unframed before kind budget b =
      before.inOrder.append
        (splitMessages body unframed (.nothing (.ok budget)) kind budget b) := by
  cases hp : Http.Message.parse kind b with
  | error fault =>
    rw [splitMessages_of_error body unframed before budget hp,
      splitMessages_of_error body unframed (.nothing (.ok budget)) budget hp]
    simp
  | ok m =>
    have hshorter := Http.Message.length_following hp
    rw [splitMessages_of_ok body unframed before budget hp,
      splitMessages_of_ok body unframed (.nothing (.ok budget)) budget hp]
    cases ho : (splitMessage body m budget).outcome with
    | error fault => simp [ho]
    | ok budget' =>
      simp only [Splitting.outcome_onto, ho]
      split_ifs
      · simp
      · cases Http.StartLine.leading? m.following with
        | none => simp [Splitting.append_assoc]
        | some kind' =>
          dsimp only
          rw [splitMessages_eq_append ((splitMessage body m budget).onto before) kind',
            splitMessages_eq_append ((splitMessage body m budget).onto _) kind']
          simp [Splitting.append_assoc]
termination_by b.length

/-- A message and what follows it. -/
theorem splitMessages_of_parse {kind : Http.Kind} (budget : Nat) {b : Bytes} {m : Http.Message}
    (h : Http.Message.parse kind b = .ok m) :
    splitMessages body unframed (.nothing (.ok budget)) kind budget b =
      match (splitMessage body m budget).outcome with
      | .error _ => splitMessage body m budget
      | .ok left =>
        (splitMessage body m budget).append (splitFollowing body unframed left m.following) := by
  rw [splitMessages_of_ok body unframed _ budget h]
  cases ho : (splitMessage body m budget).outcome with
  | error fault => simp [ho]
  | ok left =>
    simp only [Splitting.outcome_onto, ho, splitFollowing]
    split_ifs
    · simp [Splitting.append_nothing ho]
    · cases Http.StartLine.leading? m.following with
      | none => simp
      | some kind' =>
        dsimp only
        rw [splitMessages_eq_append]
        simp

theorem splitFollowing_of_leading? {b : Bytes} {kind : Http.Kind} (hb : b ≠ [])
    (h : Http.StartLine.leading? b = some kind) (budget : Nat) :
    splitFollowing body unframed budget b =
      splitMessages body unframed (.nothing (.ok budget)) kind budget b := by
  simp [splitFollowing, hb, h]

/-- A message and bytes behind it are split as each is, with what the message leaves of the
budget. -/
theorem splitFollowing_append {b rest : Bytes} (hb : isMessage b = true)
    (hends : rest = [] ∨ endsItself b = true) (budget : Nat) :
    splitFollowing body unframed budget (b ++ rest) =
      match (splitFollowing body unframed budget b).outcome with
      | .error _ => splitFollowing body unframed budget b
      | .ok left =>
        (splitFollowing body unframed budget b).append
          (splitFollowing body unframed left rest) := by
  obtain ⟨kind, m, hkind, hp, hm⟩ := exists_of_isMessage hb
  have hline := Http.Message.lineFeed_mem hp
  have hparse : Http.Message.parse kind (b ++ rest) = .ok { m with following := rest } := by
    rcases hends with rfl | hends
    · rw [List.append_nil, hp, ← hm]
    · have hend : Http.Message.framing? kind b ≠ some .endless := by
        simpa [endsItself, hkind] using hends
      rw [Http.Message.parse_append rest hp hend, hm, List.nil_append]
  have halone : splitFollowing body unframed budget b = splitMessage body m budget := by
    rw [splitFollowing_of_leading? body unframed (List.ne_nil_of_mem hline) hkind,
      splitMessages_of_parse body unframed budget hp, hm]
    cases ho : (splitMessage body m budget).outcome with
    | error fault => rfl
    | ok left => exact Splitting.append_nothing ho
  have hne : b ++ rest ≠ [] := List.append_ne_nil_of_left_ne_nil (List.ne_nil_of_mem hline) rest
  rw [halone, splitFollowing_of_leading? body unframed hne
    ((Http.StartLine.leading?_append rest hline).trans hkind),
    splitMessages_of_parse body unframed budget hparse]
  rfl

end Series

/-! ## The outermost level -/

theorem splitWithin_eq (limit unwraps : Nat) :
    splitWithin limit unwraps = splitNested limit (inner? limit unwraps) := by
  cases unwraps <;> rfl

section Outermost

variable (limits : Limits)

/-- Splits bodies at the outermost level. -/
def outerBody : Declared → Splitter :=
  splitDeclared limits.decompressed
    ((inner? limits.decompressed limits.unwraps).map fun split => split (maxMessageNesting - 1))
    (splitNested limits.decompressed (inner? limits.decompressed limits.unwraps)
      (maxMessageNesting - 1))

/-- Splits what is no message at the outermost level. -/
def outerUnframed : Splitter :=
  splitUnframed limits.decompressed
    ((inner? limits.decompressed limits.unwraps).map fun split => split maxMessageNesting none)

/-- Splits messages in a row, and what follows them, at the outermost level. -/
def splitOuter : Splitter :=
  splitFollowing (outerBody limits) (outerUnframed limits)

theorem splitWithin_eq_splitPlain (limit unwraps : Nat) :
    splitWithin limit unwraps maxMessageNesting none =
      splitPlain (outerUnframed ⟨unwraps, limit⟩) (some fun kind budget =>
        splitMessages (outerBody ⟨unwraps, limit⟩) (outerUnframed ⟨unwraps, limit⟩)
          (.nothing (.ok budget)) kind budget) none := by
  rw [splitWithin_eq]
  rfl

/-- Where the first line is a start line, no other one is looked for. -/
theorem splitWithin_eq_splitOuter {b : Bytes} (h : b = [] ∨ (Http.StartLine.leading? b).isSome)
    (budget : Nat) :
    splitWithin limits.decompressed limits.unwraps maxMessageNesting none budget b =
      splitOuter limits budget b := by
  rw [splitWithin_eq_splitPlain, splitPlain, splitOuter, splitFollowing]
  rcases h with rfl | h
  · rfl
  · obtain ⟨kind, hk⟩ := Option.isSome_iff_exists.1 h
    split_ifs
    · rfl
    · simp only [hk, Http.StartLine.first?_of_leading? hk, Option.bind_some, Option.map_some]

variable {limits} in
theorem split_eq_splitOuter {b : Bytes} (h : b = [] ∨ (Http.StartLine.leading? b).isSome) :
    split limits (.ofTexts none none) b = splitOuter limits limits.decompressed b :=
  splitWithin_eq_splitOuter limits h limits.decompressed

end Outermost

end Trawl.Content
