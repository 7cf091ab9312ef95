import Trawl.Proofs.Compression.Limit
import Trawl.Proofs.Content.Bounds
import Trawl.Proofs.Content.Series

/-!
# Less of a budget

With less of a budget, as long as what was left of the greater one covers the difference, bytes are
split into the same pieces, and the difference is missing from what is left; or else decompressing
gives too much (`Spares`). The second can be where a decoder tries two forms, and the first of them
gives more than is wanted before it fails, so that it cannot be where nothing is called deflated.
What is split in parts loses the same difference in each (`Spares.append`), so that it is enough to
look at one decoder.
-/

namespace Trawl.Content

/-- The same with so much of the budget left. -/
def Splitting.leaving (left : Nat) (s : Splitting) : Splitting :=
  { s with outcome := .ok left }

/-- Whether a splitting with a smaller budget, where what was left of the greater one covers the
difference, comes to the same or else, where that can be, to the fault of too much output. -/
def Spares (large : Prop) (limit : Nat) (run : Nat → Splitting) : Prop :=
  ∀ budget less left, (run (budget + less)).outcome = .ok (left + less) →
    run budget = (run (budget + less)).leaving left ∨
      large ∧ (run budget).outcome = .error (.tooLarge limit)

/-- The encoding that a message declares for its body. -/
def Http.Message.encoding? (m : Http.Message) : Option Compressed :=
  (Declared.ofTexts m.contentEncoding m.contentType).encoding

/-- A property that passes from bytes to everything that is found in them. Only where too much can
come out of decompressing may a body be called deflated. -/
structure Inherited (large : Prop) (P : Bytes → Prop) : Prop where
  following : ∀ {b kind m}, P b → Http.Message.parse kind b = .ok m → P m.following
  body : ∀ {b kind m content}, P b → Http.Message.parse kind b = .ok m → m.body? = some content →
    P content
  deflated : ∀ {b kind m}, P b → Http.Message.parse kind b = .ok m →
    m.encoding? = some .deflate → large
  decoded : ∀ {b data limit} {encoding : Compressed}, P b → (encoding = .deflate → large) →
    encoding.decode limit b = .ok data → P data

section Budget

variable {large : Prop} {P : Bytes → Prop} {limit unwraps messages : Nat}

theorem Spares.congr {run run' : Nat → Splitting} (h : Spares large limit run)
    (heq : ∀ budget, run' budget = run budget) : Spares large limit run' := by
  obtain rfl : run' = run := funext heq
  exact h

/-- What comes first leaves the next one less by the same difference. -/
theorem Spares.append {run next : Nat → Splitting} (h : Spares large limit run)
    (hn : Spares large limit next)
    (hle : ∀ budget left, (next budget).outcome = .ok left → left ≤ budget) :
    Spares large limit fun budget =>
      match (run budget).outcome with
      | .error _ => run budget
      | .ok left => (run budget).append (next left) := by
  intro budget less left ho
  dsimp only at ho ⊢
  cases hr : (run (budget + less)).outcome with
  | error fault => simp [hr] at ho
  | ok mid =>
    rw [hr] at ho
    have hmid := hle mid _ ho
    obtain ⟨mid, rfl⟩ : ∃ fewer, mid = fewer + less := ⟨mid - less, by omega⟩
    rcases h budget less mid hr with hsame | ⟨hl, hlarge⟩
    · rw [hsame]
      rcases hn mid less left ho with hsame' | hlarge
      · exact .inl (congrArg (Splitting.append (run (budget + less))) hsame')
      · exact .inr hlarge
    · right
      rw [hlarge]
      exact ⟨hl, hlarge⟩

theorem spares_nothing : Spares large limit fun budget => .nothing (.ok budget) := by
  intro budget less left h
  left
  simp only [Splitting.nothing, Except.ok.injEq] at h
  obtain rfl : budget = left := by omega
  rfl

theorem spares_whole (kind : String) (b : Bytes) : Spares large limit (whole kind · b) := by
  intro budget less left h
  left
  simp only [whole, Except.ok.injEq] at h
  obtain rfl : budget = left := by omega
  rfl

theorem spares_splitUnwrapped (hP : Inherited large P) {encoding : Compressed}
    (hencoding : encoding = .deflate → large) {split : Splitter}
    (hwithin : StaysWithin unwraps messages split) (h : ∀ b, P b → Spares large limit (split · b))
    {b : Bytes} (hb : P b) : Spares large limit (splitUnwrapped limit encoding split · b) := by
  intro budget less left ho
  dsimp only at ho ⊢
  cases hd : encoding.decode (budget + less) b with
  | error failure =>
    cases failure <;> simp [splitUnwrapped, hd, Splitting.nothing] at ho
  | ok data =>
    simp only [splitUnwrapped, hd] at ho ⊢
    have hlength := Compressed.length_decode hd
    have hleft := (hwithin (budget + less - data.length) data).left _ ho
    have hbudget : budget + less - data.length = budget - data.length + less := by omega
    have hgiven : data.length ≤ budget := by omega
    rw [hbudget] at ho ⊢
    rcases Compressed.decode_of_le hd hgiven (by omega) with hd' | ⟨hdeflate, -, hd'⟩
    · rw [hd']
      dsimp only
      rcases h data (hP.decoded hb hencoding hd) _ _ _ ho with hsame | hlarge
      · exact .inl (congrArg (Splitting.unwrap data.length) hsame)
      · exact .inr hlarge
    · right
      rw [hd']
      exact ⟨hencoding hdeflate, rfl⟩

theorem spares_splitUnframed (hP : Inherited large P) {inner : Option Splitter}
    (hwithin : ∀ split ∈ inner, ∃ unwraps messages, StaysWithin unwraps messages split)
    (hinner : ∀ split ∈ inner, ∀ b, P b → Spares large limit (split · b)) {b : Bytes} (hb : P b) :
    Spares large limit (splitUnframed limit inner · b) := by
  cases hk : Signature.recognize? b with
  | none =>
    refine (spares_whole (if isPlainText b then plainTextKind else unknownKind) b).congr fun _ => ?_
    simp only [splitUnframed, hk]
  | some kind =>
    cases inner with
    | none =>
      refine (spares_whole kind b).congr fun _ => ?_
      simp only [splitUnframed, hk]
    | some split =>
      by_cases hgzip : kind = Signature.gzipKind
      · obtain ⟨_, _, hsplit⟩ := hwithin split rfl
        have hgiven : Spares large limit (splitUnwrapped limit .gzip split · b) :=
          spares_splitUnwrapped hP (fun h => by cases h) hsplit (hinner split rfl) hb
        refine hgiven.congr fun _ => ?_
        simp only [splitUnframed, hk, if_pos hgzip]
      · refine (spares_whole kind b).congr fun _ => ?_
        simp only [splitUnframed, hk, if_neg hgzip]

theorem spares_splitDeclared (hP : Inherited large P) {inner : Option (Option String → Splitter)}
    {here : Option String → Splitter}
    (hwithin : ∀ split ∈ inner, ∀ mediaType, ∃ unwraps messages,
      StaysWithin unwraps messages (split mediaType))
    (hinner : ∀ split ∈ inner, ∀ mediaType b, P b → Spares large limit (split mediaType · b))
    (hhere : ∀ mediaType b, P b → Spares large limit (here mediaType · b)) {declared : Declared}
    (hdeclared : declared.encoding = some .deflate → large) {b : Bytes} (hb : P b) :
    Spares large limit (splitDeclared limit inner here declared · b) := by
  unfold splitDeclared
  cases hencoding : declared.encoding with
  | none => exact hhere _ b hb
  | some encoding =>
    cases inner with
    | none => exact spares_splitUnframed hP (by simp) (by simp) hb
    | some split =>
      obtain ⟨_, _, hsplit⟩ := hwithin split rfl declared.mediaType
      refine spares_splitUnwrapped hP (fun h => hdeclared ?_) hsplit (hinner split rfl _) hb
      rw [hencoding, h]

section Messages

variable (hP : Inherited large P) {body : Declared → Splitter} {unframed : Splitter}
  (hbody : ∀ declared, (declared.encoding = some .deflate → large) →
    ∀ b, P b → Spares large limit (body declared · b))
  (hunframed : ∀ b, P b → Spares large limit (unframed · b))
  (hbodyWithin : ∀ declared, StaysWithin unwraps messages (body declared))
  (hunframedWithin : StaysWithin unwraps (messages + 1) unframed)

include hP hbody in
theorem spares_splitMessage {b : Bytes} (hb : P b) {kind : Http.Kind} {m : Http.Message}
    (hp : Http.Message.parse kind b = .ok m) : Spares large limit (splitMessage body m) := by
  intro budget less left ho
  unfold splitMessage at ho ⊢
  split at ho
  · exact spares_whole _ _ budget less left ho
  · rename_i content hcontent
    have hgiven := hbody _ (hP.deflated hb hp) content (hP.body hb hp hcontent)
    rcases hgiven budget less left ho with hsame | hlarge
    · exact .inl (congrArg (Splitting.embody _) hsame)
    · exact .inr hlarge

include hbodyWithin hunframedWithin in
theorem staysWithin_splitFollowing :
    StaysWithin unwraps (messages + 1) (splitFollowing body unframed) := by
  intro budget b
  unfold splitFollowing
  split_ifs
  · exact (Splitting.within_nothing _ _ budget).mono (Nat.zero_le _)
  · cases Http.StartLine.leading? b with
    | none => exact hunframedWithin budget b
    | some kind =>
      have h := within_splitMessages hbodyWithin hunframedWithin (.nothing (.ok budget)) kind budget
        b (Splitting.within_nothing unwraps (messages + 1) budget) rfl
      rwa [Nat.zero_add] at h

include hunframed in
theorem spares_splitFollowing {b : Bytes} (hb : P b)
    (hmessages : ∀ kind, Spares large limit fun budget =>
      splitMessages body unframed (.nothing (.ok budget)) kind budget b) :
    Spares large limit (splitFollowing body unframed · b) := by
  by_cases hempty : b.isEmpty
  · exact spares_nothing.congr fun _ => by simp only [splitFollowing, if_pos hempty]
  · cases hk : Http.StartLine.leading? b with
    | none => exact (hunframed b hb).congr fun _ => by simp only [splitFollowing, if_neg hempty, hk]
    | some kind =>
      exact (hmessages kind).congr fun _ => by simp only [splitFollowing, if_neg hempty, hk]

include hP hbody hunframed hbodyWithin hunframedWithin in
theorem spares_splitMessages (kind : Http.Kind) (b : Bytes) (hb : P b) :
    Spares large limit fun budget =>
      splitMessages body unframed (.nothing (.ok budget)) kind budget b := by
  cases hp : Http.Message.parse kind b with
  | error fault =>
    intro budget less left ho
    dsimp only at ho
    rw [splitMessages_of_error _ _ _ _ hp] at ho
    cases ho
  | ok m =>
    have hshorter := Http.Message.length_following hp
    have hfollowing := hP.following hb hp
    have hrest := spares_splitFollowing hunframed hfollowing fun kind' =>
      spares_splitMessages kind' m.following hfollowing
    refine ((spares_splitMessage hP hbody hb hp).append hrest fun budget left ho => ?_).congr
      fun budget => splitMessages_of_parse _ _ budget hp
    have hleft := (staysWithin_splitFollowing hbodyWithin hunframedWithin budget _).left left ho
    omega
termination_by b.length

end Messages

theorem spares_splitPlain {unframed : Splitter} {series : Option (Http.Kind → Splitter)}
    (hunframed : ∀ b, P b → Spares large limit (unframed · b))
    (hseries : ∀ split ∈ series, ∀ kind b, P b → Spares large limit (split kind · b))
    (mediaType : Option String) {b : Bytes} (hb : P b) :
    Spares large limit (splitPlain unframed series mediaType · b) := by
  by_cases hempty : b.isEmpty
  · refine spares_nothing.congr fun _ => ?_
    simp only [splitPlain, if_pos hempty]
  · cases mediaType with
    | some kind =>
      refine (spares_whole kind b).congr fun _ => ?_
      simp only [splitPlain, if_neg hempty]
    | none =>
      cases hk : series.bind fun split => (Http.StartLine.first? b).map split with
      | none =>
        refine (hunframed b hb).congr fun _ => ?_
        simp only [splitPlain, if_neg hempty, hk]
      | some split =>
        obtain ⟨split', hmem, hmap⟩ := Option.bind_eq_some_iff.1 hk
        obtain ⟨kind, -, rfl⟩ := Option.map_eq_some_iff.1 hmap
        refine (hseries split' hmem kind b hb).congr fun _ => ?_
        simp only [splitPlain, if_neg hempty, hk]

section Levels

variable (hP : Inherited large P) {inner : Option Level} (hbelow : StayBelow unwraps inner)
  (hinner : ∀ level ∈ inner, ∀ room mediaType b, P b →
    Spares large limit (level room mediaType · b))

include hP hbelow hinner

theorem spares_unframed (room : Nat) (b : Bytes) (hb : P b) :
    Spares large limit (splitUnframed limit (inner.map fun split => split room none) · b) := by
  refine spares_splitUnframed hP (fun split hsplit => ?_) (fun split hsplit b hb => ?_) hb
  · obtain ⟨level, hlevel, rfl⟩ := Option.map_eq_some_iff.1 hsplit
    obtain ⟨fewer, -, hwithin⟩ := hbelow level hlevel
    exact ⟨fewer, room, hwithin room none⟩
  · obtain ⟨level, hlevel, rfl⟩ := Option.map_eq_some_iff.1 hsplit
    exact hinner level hlevel room none b hb

theorem spares_declared (room : Nat) {here : Option String → Splitter}
    (hhere : ∀ mediaType b, P b → Spares large limit (here mediaType · b)) (declared : Declared)
    (hdeclared : declared.encoding = some .deflate → large) (b : Bytes) (hb : P b) :
    Spares large limit
      (splitDeclared limit (inner.map fun split => split room) here declared · b) := by
  refine spares_splitDeclared hP (fun split hsplit mediaType => ?_)
    (fun split hsplit mediaType b hb => ?_) hhere hdeclared hb
  · obtain ⟨level, hlevel, rfl⟩ := Option.map_eq_some_iff.1 hsplit
    obtain ⟨fewer, -, hwithin⟩ := hbelow level hlevel
    exact ⟨fewer, room, hwithin room mediaType⟩
  · obtain ⟨level, hlevel, rfl⟩ := Option.map_eq_some_iff.1 hsplit
    exact hinner level hlevel room mediaType b hb

theorem spares_splitNested : ∀ (room : Nat) (mediaType : Option String) (b : Bytes), P b →
    Spares large limit (splitNested limit inner room mediaType · b)
  | 0, mediaType, b, hb =>
    spares_splitPlain (spares_unframed hP hbelow hinner 0) (by simp) mediaType hb
  | room + 1, mediaType, b, hb => by
    have hunframed := spares_unframed hP hbelow hinner (room + 1)
    have hbody := spares_declared hP hbelow hinner room (spares_splitNested room)
    have hbodyWithin := hbelow.declared limit room (staysWithin_splitNested limit hbelow room)
    refine spares_splitPlain hunframed ?_ mediaType hb
    rintro _ ⟨⟩ kind b hb
    exact spares_splitMessages hP hbody hunframed hbodyWithin (hbelow.unframed limit (room + 1))
      kind b hb

end Levels

theorem spares_inner? (hP : Inherited large P) (limit : Nat) : ∀ (unwraps : Nat),
    ∀ level ∈ inner? limit unwraps, ∀ room mediaType b, P b →
      Spares large limit (level room mediaType · b)
  | 0 => by simp [inner?]
  | unwraps + 1 => by
    rintro _ ⟨⟩
    rw [splitWithin_eq]
    exact spares_splitNested hP (stayBelow_inner? limit unwraps) (spares_inner? hP limit unwraps)

end Budget

end Trawl.Content
