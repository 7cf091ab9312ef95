import Trawl.Proofs.Content.Budget

/-!
# Pipelined messages

Messages in a row are classified as each of them by itself, if each is with what those before it
leave of the budget; otherwise too much comes out of decompressing, and nothing else can go wrong
(`classify_flatten`). That each of them is with the whole budget, and all together give no more than
that, is not enough (`classify_flatten_too_large`).
-/

namespace Trawl.Content

/-- Whether a message and bytes behind it are split as each is, with what the message leaves of the
budget. -/
structure Joins (split : Splitter) : Prop where
  nil : ∀ budget, split budget [] = .nothing (.ok budget)
  append : ∀ {b rest : Bytes}, isMessage b = true → rest = [] ∨ endsItself b = true → ∀ budget,
    split budget (b ++ rest) =
      match (split budget b).outcome with
      | .error _ => split budget b
      | .ok left => (split budget b).append (split left rest)

section Row

variable (split : Splitter) (whole : Nat)

/-- How many bytes all decompressing of some messages gives, each with the whole budget. -/
def used (ms : List Bytes) : Nat :=
  (ms.map fun b => (split whole b).unwrapped.sum).sum

/-- Whether each of some messages, with what those before it leave of a budget, is split as it is
with the whole budget. -/
def Fits (budget : Nat) (ms : List Bytes) : Prop :=
  ∀ before b after, ms = before ++ b :: after →
    (split (budget - used split whole before) b).result = .ok (split whole b).chunks

variable {split whole}

theorem fits_cons {budget : Nat} {b : Bytes} {ms : List Bytes} :
    Fits split whole budget (b :: ms) ↔ (split budget b).result = .ok (split whole b).chunks ∧
      Fits split whole (budget - (split whole b).unwrapped.sum) ms := by
  constructor
  · intro h
    refine ⟨h [] b ms rfl, fun before b' after hms => ?_⟩
    have := h (b :: before) b' after (by rw [hms, List.cons_append])
    simpa only [used, List.map_cons, List.sum_cons, Nat.sub_sub] using this
  · rintro ⟨hb, hms⟩ before b' after h
    rcases before with _ | ⟨_, before⟩
    · cases h
      exact hb
    · cases h
      simpa only [used, List.map_cons, List.sum_cons, Nat.sub_sub] using hms before b' after rfl

variable {large : Prop} {P : Bytes → Prop} {limit unwraps messages : Nat}
  (hspares : ∀ b, P b → Spares large limit (split · b))
  (hwithin : StaysWithin unwraps messages split) (hjoins : Joins split)

include hspares hwithin hjoins

/-- Messages in a row are split as each by itself is with what is left to it, or else, where that
can be, one of them gives too much for that. -/
theorem split_flatten : ∀ (ms : List Bytes) (budget : Nat), budget ≤ whole → (∀ b ∈ ms, P b) →
    (∀ b ∈ ms, isMessage b = true) → (∀ b ∈ ms.dropLast, endsItself b = true) →
    (∀ b ∈ ms, ∃ left, (split whole b).outcome = .ok left) → used split whole ms ≤ budget →
    Fits split whole budget ms ∧
        (split budget ms.flatten).result = .ok (ms.flatMap fun b => (split whole b).chunks) ∨
      ¬Fits split whole budget ms ∧ large ∧
        (split budget ms.flatten).outcome = .error (.tooLarge limit)
  | [], budget, _, _, _, _, _, _ => by
    left
    refine ⟨fun before b after h => by simp at h, ?_⟩
    rw [List.flatten_nil, hjoins.nil]
    rfl
  | b :: ms, budget, hbudget, hall, hmessage, hends, hok, hused => by
    obtain ⟨left, hleft⟩ := hok b List.mem_cons_self
    have hpaid := (hwithin whole b).left left hleft
    have hsum : used split whole (b :: ms) = (split whole b).unwrapped.sum + used split whole ms :=
      rfl
    have hend : ms.flatten = [] ∨ endsItself b = true := by
      cases ms with
      | nil => exact .inl rfl
      | cons b' ms => exact .inr (hends b List.mem_cons_self)
    have hends' : ∀ b' ∈ ms.dropLast, endsItself b' = true := by
      cases ms with
      | nil => simp
      | cons b₁ ms => exact fun b' h => hends b' (List.mem_cons_of_mem _ h)
    have hnext := split_flatten ms (budget - (split whole b).unwrapped.sum) (by omega)
      (fun b' h => hall b' (List.mem_cons_of_mem _ h))
      (fun b' h => hmessage b' (List.mem_cons_of_mem _ h)) hends'
      (fun b' h => hok b' (List.mem_cons_of_mem _ h)) (by omega)
    -- The whole budget is what is left to the message and a difference that it leaves as well.
    obtain ⟨less, hless⟩ : ∃ less, whole = budget + less := ⟨whole - budget, by omega⟩
    have hleft' : left = budget - (split whole b).unwrapped.sum + less := by omega
    rw [hleft', hless] at hleft
    rw [List.flatten_cons, hjoins.append (hmessage b List.mem_cons_self) hend, fits_cons]
    rcases hspares b (hall b List.mem_cons_self) budget less _ hleft with hsame | ⟨hl, hlarge⟩
    · rw [← hless] at hsame
      dsimp only at hsame
      rw [hsame]
      rcases hnext with ⟨hfits, hresult⟩ | ⟨hfits, hlarge⟩
      · left
        refine ⟨⟨rfl, hfits⟩, ?_⟩
        show Splitting.result (Splitting.append _ _) = _
        rw [Splitting.result_append, hresult]
        rfl
      · right
        exact ⟨fun h => hfits h.2, hlarge⟩
    · right
      dsimp only at hlarge
      rw [hlarge]
      refine ⟨fun h => ?_, hl, hlarge⟩
      rw [Splitting.result_of_error hlarge] at h
      cases h.1

end Row

section Outermost

variable (limits : Limits)

theorem joins_splitOuter : Joins (splitOuter limits) where
  nil _ := rfl
  append hb hends budget := splitFollowing_append _ _ hb hends budget

theorem staysWithin_splitOuter :
    StaysWithin limits.unwraps maxMessageNesting (splitOuter limits) :=
  staysWithin_splitFollowing
    ((stayBelow_inner? _ _).declared _ _ (staysWithin_splitNested _ (stayBelow_inner? _ _) _))
    ((stayBelow_inner? _ _).unframed _ _)

theorem spares_splitOuter {large : Prop} {P : Bytes → Prop} (hP : Inherited large P) (b : Bytes)
    (hb : P b) : Spares large limits.decompressed (splitOuter limits · b) := by
  have hbelow := stayBelow_inner? limits.decompressed limits.unwraps
  have hinner := spares_inner? hP limits.decompressed limits.unwraps
  have hunframed := spares_unframed hP hbelow hinner maxMessageNesting
  have hbody := spares_declared hP hbelow hinner (maxMessageNesting - 1)
    (spares_splitNested hP hbelow hinner (maxMessageNesting - 1))
  exact spares_splitFollowing hunframed hb fun kind => spares_splitMessages hP hbody hunframed
    (hbelow.declared _ _ (staysWithin_splitNested _ hbelow _)) (hbelow.unframed _ _) kind b hb

/-- What is left of the limits when so many bytes have come out of decompressing. -/
def Limits.spend (n : Nat) : Limits :=
  { limits with decompressed := limits.decompressed - n }

/-- How many bytes all decompressing of some messages gives, each with the whole budget. -/
def unwrappedBy (ms : List Bytes) : Nat :=
  (ms.map fun b => (split limits (.ofTexts none none) b).unwrapped.sum).sum

variable {limits} {b : Bytes}

/-- A lower limit shows only in the fault that names it. -/
theorem result_splitOuter (h : b = [] ∨ (Http.StartLine.leading? b).isSome) (n : Nat) :
    (splitOuter limits (limits.decompressed - n) b).result =
      (classify (limits.spend n) none none b).mapError (.withLimit limits.decompressed) := by
  have hlimit : (splitWithin (limits.spend n).decompressed limits.unwraps maxMessageNesting
      none).withLimit limits.decompressed =
        splitWithin limits.decompressed limits.unwraps maxMessageNesting none :=
    withLimit_splitWithin limits.unwraps maxMessageNesting none
  rw [← splitWithin_eq_splitOuter limits h, ← hlimit]
  exact Splitting.result_withLimit _

end Outermost

theorem leading?_flatten {ms : List Bytes} (h : ∀ b ∈ ms, isMessage b = true) :
    ms.flatten = [] ∨ (Http.StartLine.leading? ms.flatten).isSome := by
  cases ms with
  | nil => exact .inl rfl
  | cons b ms =>
    obtain ⟨kind, m, hkind, hp, -⟩ := exists_of_isMessage (h b List.mem_cons_self)
    right
    rw [List.flatten_cons, Http.StartLine.leading?_append _ (Http.Message.lineFeed_mem hp), hkind]
    rfl

theorem mapError_eq_ok_iff {ε ε' α : Type} {f : ε → ε'} {r : Except ε α} {a : α} :
    r.mapError f = .ok a ↔ r = .ok a := by
  cases r <;> simp [Except.mapError]

/-- Messages that end by themselves and give no more than the limit together are classified as each
of them is; or else, where that can be, too much comes out of decompressing. -/
theorem flatten_cases {large : Prop} {P : Bytes → Prop} (hP : Inherited large P) (limits : Limits)
    {ms : List Bytes} (hms : ∀ b ∈ ms, P b) {chunks : Bytes → List Chunk}
    (hmessage : ∀ b ∈ ms, isMessage b = true) (hends : ∀ b ∈ ms.dropLast, endsItself b = true)
    (hchunks : ∀ b ∈ ms, classify limits none none b = .ok (chunks b))
    (hbudget : unwrappedBy limits ms ≤ limits.decompressed) :
    (classify limits none none ms.flatten = .ok (ms.flatMap chunks) ∨
      large ∧ classify limits none none ms.flatten = .error (.tooLarge limits.decompressed)) ∧
    (classify limits none none ms.flatten = .ok (ms.flatMap chunks) ↔
      ∀ before b after, ms = before ++ b :: after →
        classify (limits.spend (unwrappedBy limits before)) none none b = .ok (chunks b)) := by
  have hleading : ∀ b ∈ ms, b = [] ∨ (Http.StartLine.leading? b).isSome := by
    intro b hb
    obtain ⟨kind, m, hkind, -⟩ := exists_of_isMessage (hmessage b hb)
    exact .inr (Option.isSome_of_eq_some hkind)
  have hwhole : ∀ b ∈ ms, split limits (.ofTexts none none) b =
      splitOuter limits limits.decompressed b :=
    fun b hb => split_eq_splitOuter (hleading b hb)
  have hfound : ∀ b ∈ ms, (∃ left, (splitOuter limits limits.decompressed b).outcome = .ok left) ∧
      (splitOuter limits limits.decompressed b).chunks = chunks b := by
    intro b hb
    rw [← Splitting.result_eq_ok_iff, ← hwhole b hb]
    exact hchunks b hb
  have hused : ∀ before, before ⊆ ms →
      used (splitOuter limits) limits.decompressed before = unwrappedBy limits before := by
    intro before hbefore
    exact congrArg List.sum (List.map_congr_left fun b hb => by rw [hwhole b (hbefore hb)])
  have hfits : Fits (splitOuter limits) limits.decompressed limits.decompressed ms ↔
      ∀ before b after, ms = before ++ b :: after →
        classify (limits.spend (unwrappedBy limits before)) none none b = .ok (chunks b) := by
    refine forall_congr' fun before => forall_congr' fun b => forall_congr' fun after =>
      forall_congr' fun hms => ?_
    have hb : b ∈ ms := by simp [hms]
    rw [hused before (by simp [hms]), result_splitOuter (hleading b hb), (hfound b hb).2]
    exact mapError_eq_ok_iff
  have hflatten : classify limits none none ms.flatten =
      (splitOuter limits limits.decompressed ms.flatten).result :=
    congrArg Splitting.result (split_eq_splitOuter (leading?_flatten hmessage))
  have hcases := split_flatten (spares_splitOuter limits hP) (staysWithin_splitOuter limits)
    (joins_splitOuter limits) ms limits.decompressed (Nat.le_refl _) hms hmessage hends
    (fun b hb => (hfound b hb).1) (by rwa [hused ms (List.Subset.refl ms)])
  rw [← hfits, hflatten]
  rcases hcases with ⟨hfit, hresult⟩ | ⟨hfit, hl, hlarge⟩
  · have hall : ms.flatMap (fun b => (splitOuter limits limits.decompressed b).chunks) =
        ms.flatMap chunks :=
      congrArg List.flatten (List.map_congr_left fun b hb => (hfound b hb).2)
    rw [hresult, hall]
    exact ⟨.inl rfl, iff_of_true rfl hfit⟩
  · rw [Splitting.result_of_error hlarge]
    exact ⟨.inr ⟨hl, rfl⟩, iff_of_false (by simp) hfit⟩

/-- In general, too much can come out of decompressing. -/
theorem inherited_true : Inherited True fun _ => True where
  following _ _ := trivial
  body _ _ _ := trivial
  deflated _ _ _ := trivial
  decoded _ _ _ := trivial

/-- Messages that end by themselves and give no more than the limit together are classified as each
of them is; or else too much comes out of decompressing. They are classified so exactly if each of
them still is under what those before it leave of the limit. -/
theorem classify_flatten (limits : Limits) (ms : List Bytes) (chunks : Bytes → List Chunk)
    (hmessage : ∀ b ∈ ms, isMessage b = true) (hends : ∀ b ∈ ms.dropLast, endsItself b = true)
    (hchunks : ∀ b ∈ ms, classify limits none none b = .ok (chunks b))
    (hbudget : unwrappedBy limits ms ≤ limits.decompressed) :
    (classify limits none none ms.flatten = .ok (ms.flatMap chunks) ∨
      classify limits none none ms.flatten = .error (.tooLarge limits.decompressed)) ∧
    (classify limits none none ms.flatten = .ok (ms.flatMap chunks) ↔
      ∀ before b after, ms = before ++ b :: after →
        classify (limits.spend (unwrappedBy limits before)) none none b = .ok (chunks b)) := by
  obtain ⟨hcases, hiff⟩ := flatten_cases inherited_true limits (fun _ _ => trivial) hmessage hends
    hchunks hbudget
  exact ⟨hcases.imp id And.right, hiff⟩

/-- Two responses that use up the budget, the second one without an end of its own. -/
theorem classify_flatten_two_responses :
    ∃ first second : Bytes, endsItself second = false ∧
      unwrappedBy ⟨5, 27⟩ [first, second] = 27 ∧
      (classify ⟨5, 27⟩ none none [first, second].flatten).map (·.map (·.kind)) =
        .ok ["http-response", "text/plain", "http-response", "text/plain"] := by
  let first : Bytes := Bytes.ofText
    "HTTP/1.1 200 OK\r\nContent-Encoding: gzip\r\nContent-Length: 23\r\n\r\n" ++
    [0x1F, 0x8B, 0x08, 0x00, 0x00, 0x00, 0x00, 0x00, 0x02, 0x03, 0x4B, 0x4C, 0xC4, 0x01, 0x00, 0x00,
      0xFB, 0x84, 0x02, 0x19, 0x00, 0x00, 0x00]
  let second : Bytes := Bytes.ofText "HTTP/1.1 200 OK\r\nContent-Encoding: deflate\r\n\r\n" ++
    [0x78, 0x9C, 0xCB, 0xC8, 0x04, 0x00, 0x01, 0x3B, 0x00, 0xD2]
  let found : Bytes → List Chunk := fun b => ((classify ⟨5, 27⟩ none none b).toOption).getD []
  have hfound : ∀ b ∈ [first, second], classify ⟨5, 27⟩ none none b = .ok (found b) := by
    decide +kernel
  have hfirst : unwrappedBy ⟨5, 27⟩ [first] = 25 := by decide +kernel
  have hused : unwrappedBy ⟨5, 27⟩ [first, second] = 27 := by decide +kernel
  have hsecond : classify ⟨5, 2⟩ none none second = .ok (found second) := by decide +kernel
  have hkinds : ([first, second].flatMap found).map (·.kind) =
      ["http-response", "text/plain", "http-response", "text/plain"] := by decide +kernel
  have hall := (classify_flatten ⟨5, 27⟩ [first, second] found (by decide +kernel)
    (by decide +kernel) hfound (Nat.le_of_eq hused)).2.2 fun before b after h => by
      rcases before with _ | ⟨_, _ | ⟨_, before⟩⟩
      · cases h
        exact hfound first List.mem_cons_self
      · cases h
        rw [hfirst]
        exact hsecond
      · simp at h
  refine ⟨first, second, by decide +kernel, hused, ?_⟩
  rw [hall]
  exact congrArg Except.ok hkinds

/-- What is called deflated gives 16 bytes as a zlib stream that breaks off, but one byte as a bare
stream. With the whole budget it is therefore the latter, and where only 5 bytes are left it is too
large. -/
theorem classify_flatten_too_large :
    ∃ first second : Bytes, ∃ found found' : List Chunk,
      (∀ b ∈ [first, second], isMessage b = true ∧ endsItself b = true) ∧
      classify ⟨5, 30⟩ none none first = .ok found ∧
      classify ⟨5, 30⟩ none none second = .ok found' ∧
      unwrappedBy ⟨5, 30⟩ [first, second] ≤ 30 ∧
      classify ⟨5, 30⟩ none none [first, second].flatten = .error (.tooLarge 30) := by
  let first : Bytes := Bytes.ofText
    "HTTP/1.1 200 OK\r\nContent-Encoding: gzip\r\nContent-Length: 23\r\n\r\n" ++
    [0x1F, 0x8B, 0x08, 0x00, 0x00, 0x00, 0x00, 0x00, 0x02, 0x03, 0x4B, 0x4C, 0xC4, 0x01, 0x00, 0x00,
      0xFB, 0x84, 0x02, 0x19, 0x00, 0x00, 0x00]
  let head : Bytes := Bytes.ofText
    "HTTP/1.1 200 OK\r\nContent-Encoding: deflate\r\nContent-Length: 23\r\n\r\n"
  let second : Bytes := head ++
    [0x78, 0x01, 0x00, 0xFE, 0xFF, 0x01, 0x00, 0x00, 0x00, 0xFF, 0xFF, 0x03, 0x00] ++
    List.replicate 10 0x00
  have hfirst : classify ⟨5, 30⟩ none none first =
      .ok [⟨"http-response", first.take (first.length - 23)⟩,
        ⟨plainTextKind, List.replicate 25 0x61⟩] := by
    decide +kernel
  have hsecond : classify ⟨5, 30⟩ none none second =
      .ok [⟨"http-response", head⟩, ⟨unknownKind, [0x01]⟩] := by
    decide +kernel
  exact ⟨first, second, _, _, by decide +kernel, hfirst, hsecond, by decide +kernel,
    by decide +kernel⟩

end Trawl.Content
