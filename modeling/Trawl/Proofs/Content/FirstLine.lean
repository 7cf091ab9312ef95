import Trawl.Proofs.Content.HeadParts
import Trawl.Proofs.Content.StartLine

/-!
# Messages whose first line is a start line

A head is read by bytes and may stand behind empty lines, a start line is recognized by characters,
and behind another message only in the first line. Of the messages that can be read, the first line
of exactly those is recognized that open with their start line, where the method of a request is
capitals and its target has no white space, and where the reason of a response starts with a capital
(`leading?_iff_opensAs`).
-/

namespace Trawl

namespace Text.Utf8

variable {a : UInt8} {b : Bytes}

theorem readMore_append_ascii (ha : a < 0x80) (more : Bytes) {value n : Nat} {low high : UInt8}
    (hlow : 0x80 ≤ low) {rest : Bytes} (h : readMore value n low high b = .malformed rest) :
    ∃ rest', readMore value n low high (b ++ a :: more) = .malformed rest' := by
  induction b generalizing value n low high with
  | nil =>
    cases n with
    | zero => cases h
    | succ n =>
      have hout : ¬ (low ≤ a && a ≤ high) = true := by
        simp only [Bool.and_eq_true, decide_eq_true_eq, not_and]
        exact fun hle => absurd (UInt8.lt_of_lt_of_le ha hlow) (UInt8.not_lt.2 hle)
      exact ⟨a :: more, by rw [List.nil_append, readMore, if_neg hout]⟩
  | cons c b ih =>
    cases n with
    | zero => cases h
    | succ n =>
      simp only [readMore, List.cons_append] at h ⊢
      split at h <;> rename_i hc
      · rw [if_pos hc]
        exact ih (by decide) h
      · exact ⟨_, if_neg hc⟩

theorem low_of_lead? {lead : Lead} (h : lead? a = some lead) : 0x80 ≤ lead.low := by
  unfold lead? at h
  split_ifs at h
  all_goals cases h
  all_goals simp only
  all_goals decide

/-- What is no character is none in front of ASCII either. -/
theorem next?_append_ascii (ha : a < 0x80) (more : Bytes) (hne : b ≠ []) :
    next? (b ++ a :: more) = (next? b).map fun x => (x.1, x.2 ++ a :: more) := by
  cases hn : next? b with
  | some x => rw [next?_append (a :: more) hn, Option.map_some]
  | none =>
    obtain ⟨x, b, rfl⟩ := List.exists_cons_of_ne_nil hne
    simp only [next?, List.cons_append, readFrom] at hn ⊢
    cases hl : lead? x with
    | none => rfl
    | some lead =>
      simp only [hl] at hn ⊢
      split at hn <;> rename_i hread
      · cases hn
      · obtain ⟨rest, hrest⟩ := readMore_append_ascii ha more (low_of_lead? hl) hread
        rw [hrest]
        rfl

end Text.Utf8

namespace Content.Http

namespace StartLine

/-! ## Patterns up to a byte that stops them -/

section Stop

variable {a : UInt8} (ha : a < 0x80) {p : Char → Bool} (hp : p (Char.ofNat a.toNat) = false)
  (b more : Bytes)

theorem many_of_none (h : Text.Utf8.next? b = none) : many p b = b := by
  rw [many]
  split <;> rename_i hn
  · rw [h] at hn
    cases hn
  · rfl

include ha

theorem one?_append_ascii (hne : b ≠ []) :
    one? p (b ++ a :: more) = (one? p b).map (· ++ a :: more) := by
  rw [one?, Text.Utf8.next?_append_ascii ha more hne, one?]
  cases Text.Utf8.next? b with
  | none => rfl
  | some x =>
    dsimp only [Option.map_some]
    split <;> rfl

include hp

theorem one?_append_stop : one? p (b ++ a :: more) = (one? p b).map (· ++ a :: more) := by
  by_cases hne : b = []
  · subst hne
    simp only [List.nil_append, one?, Text.Utf8.next?_ascii ha, hp]
    rfl
  · exact one?_append_ascii ha b more hne

theorem many_append_stop : many p (b ++ a :: more) = many p b ++ a :: more := by
  fun_induction many p b with
  | case1 b c rest hn hc ih => rw [many_of_pos (Text.Utf8.next?_append _ hn) hc, ih]
  | case2 b c rest hn hc => exact many_of_neg (Text.Utf8.next?_append _ hn) hc
  | case3 b hn =>
    by_cases hne : b = []
    · subst hne
      exact many_of_neg (Text.Utf8.next?_ascii ha more) (by simp [hp])
    · refine many_of_none _ ?_
      rw [Text.Utf8.next?_append_ascii ha more hne, hn]
      rfl

theorem some?_append_stop : some? p (b ++ a :: more) = (some? p b).map (· ++ a :: more) := by
  rw [some?, some?, one?_append_stop ha hp]
  cases one? p b with
  | none => rfl
  | some rest => exact congrArg some (many_append_stop ha hp rest more)

omit ha hp in
theorem text?_append_stop {text : String} (htext : a ∉ Bytes.ofText text) :
    text? text (b ++ a :: more) = (text? text b).map (· ++ a :: more) := by
  cases h : text? text b with
  | some rest => exact text?_append _ h
  | none =>
    refine Option.eq_none_iff_forall_not_mem.2 fun rest hrest => ?_
    rcases List.append_eq_append_iff.1 (text?_eq_some_iff.1 hrest) with ⟨c, hc, hcons⟩ | ⟨c, hc, -⟩
    · rcases c with _ | ⟨x, c⟩
      · have hwhole : text? text b = some [] := text?_eq_some_iff.2 (by simp [hc])
        rw [h] at hwhole
        cases hwhole
      · obtain rfl := (List.cons.inj hcons).1
        exact htext (by simp [hc])
    · rw [text?_eq_some_iff.2 hc] at h
      cases h

end Stop

/-! ### Characters of ASCII -/

theorem one?_cons_ascii {p : Char → Bool} {a : UInt8} (ha : a < 0x80) (b : Bytes) :
    one? p (a :: b) = if p (Char.ofNat a.toNat) then some b else none := by
  rw [one?, Text.Utf8.next?_ascii ha]

theorem many_cons_ascii {p : Char → Bool} {a : UInt8} (ha : a < 0x80) (b : Bytes) :
    many p (a :: b) = if p (Char.ofNat a.toNat) then many p b else a :: b := by
  split <;> rename_i hp
  · exact many_of_pos (Text.Utf8.next?_ascii ha b) hp
  · exact many_of_neg (Text.Utf8.next?_ascii ha b) hp

end StartLine

/-! ## Start lines that fit their pattern -/

/-- A capital letter of ASCII. -/
def isCapitalOctet (x : UInt8) : Bool :=
  0x41 ≤ x && x ≤ 0x5A

/-- What holds of every number of eight bits holds of every byte. -/
theorem forall_octet {P : UInt8 → Prop} (h : ∀ n < 256, P (UInt8.ofNat n)) (x : UInt8) : P x := by
  simpa using h x.toNat x.toNat_lt

theorem isCapital_ofNat (x : UInt8) :
    StartLine.isCapital (Char.ofNat x.toNat) = isCapitalOctet x :=
  forall_octet (P := fun x => StartLine.isCapital (Char.ofNat x.toNat) = isCapitalOctet x)
    (by decide +kernel) x

/-- The bytes of a method are ASCII and no white space. -/
theorem ascii_of_isToken {x : UInt8} (h : isToken x = true) :
    x < 0x80 ∧ Text.isWhiteSpace (Char.ofNat x.toNat) = false :=
  forall_octet (P := fun x => isToken x = true →
    x < 0x80 ∧ Text.isWhiteSpace (Char.ofNat x.toNat) = false) (by decide +kernel) x h

theorem ne_of_isToken {x : UInt8} (h : isToken x = true) : x ≠ lineFeed ∧ x ≠ space :=
  ⟨fun hx => absurd (hx ▸ h) (by decide +kernel), fun hx => absurd (hx ▸ h) (by decide +kernel)⟩

theorem ne_of_isTarget {x : UInt8} (h : isTarget x = true) : x ≠ lineFeed ∧ x ≠ space :=
  ⟨fun hx => absurd (hx ▸ h) (by decide), fun hx => absurd (hx ▸ h) (by decide)⟩

theorem ascii_of_isDigit {x : UInt8} (h : isDigit x = true) :
    x < 0x80 ∧ Text.isDecimalDigit (Char.ofNat x.toNat) = true :=
  forall_octet (P := fun x => isDigit x = true →
    x < 0x80 ∧ Text.isDecimalDigit (Char.ofNat x.toNat) = true) (by decide +kernel) x h

theorem ne_of_isDigit {x : UInt8} (h : isDigit x = true) : x ≠ lineFeed := fun hx =>
  absurd (hx ▸ h) (by decide)

namespace StartLine

/-- Whether a target has no white space, or goes on behind the first one as a version does. -/
def fitsTarget (target : Bytes) : Bool :=
  match some? (fun c => !Text.isWhiteSpace c) target with
  | none => false
  | some [] => true
  | some (x :: rest) =>
    (((one? Text.isWhiteSpace (x :: rest)).bind (text? "HTTP/")).bind
      (some? Text.isDecimalDigit)).isSome

/-- How a message has to open so that its first line is a start line: at once, with a method of
capitals and a target that fits, or with a capital behind the code and the space after it. -/
def OpensAs : Kind → Bytes → Prop
  | .request, b =>
    (b.takeWhile (· ≠ space)).all isCapitalOctet = true ∧
      fitsTarget ((b.dropWhile (· ≠ space)).tail.takeWhile (· ≠ space)) = true
  | .response, b =>
    Head.versionMark <+: b ∧ b[12]? = some space ∧ (one? isCapital (b.drop 13)).isSome = true

instance : ∀ kind, DecidablePred (OpensAs kind)
  | .request, _ => inferInstanceAs (Decidable (_ ∧ _))
  | .response, _ => inferInstanceAs (Decidable (_ ∧ _))

/-- The word at the start of a request line is taken up exactly if it consists of capitals. -/
theorem many_isCapital_word : ∀ {word : Bytes}, (∀ x ∈ word, isToken x = true) →
    (word.all isCapitalOctet = true → many isCapital word = []) ∧
      (word.all isCapitalOctet = false → ∀ more,
        one? Text.isWhiteSpace (many isCapital word ++ more) = none)
  | [], _ => ⟨fun _ => many_of_none [] rfl, by simp⟩
  | x :: word, h => by
    obtain ⟨hascii, hblank⟩ := ascii_of_isToken (h x List.mem_cons_self)
    obtain ⟨hall, hnot⟩ := many_isCapital_word fun y hy => h y (List.mem_cons_of_mem _ hy)
    rw [many_cons_ascii hascii, isCapital_ofNat, List.all_cons]
    cases hx : isCapitalOctet x
    · refine ⟨by simp, fun _ more => ?_⟩
      simp [one?_cons_ascii hascii, hblank]
    · simp only [Bool.true_and, if_true]
      exact ⟨hall, hnot⟩

theorem text?_version (d : UInt8) (tail : Bytes) :
    text? "HTTP/" (Head.versionMark ++ d :: tail) = some (0x31 :: 0x2E :: d :: tail) :=
  text?_eq_some_iff.2 rfl

/-- What stands behind the method fits the pattern if and only if the target does: the version that
ends the pattern is the one behind the target, or else lies within it. -/
theorem isSome_behind_method (target : Bytes) (d : UInt8) (tail : Bytes) :
    ((some? (fun c => !Text.isWhiteSpace c)
        (target ++ space :: (Head.versionMark ++ d :: tail))).bind fun b =>
      (one? Text.isWhiteSpace b).bind fun b =>
        (text? "HTTP/" b).bind (some? Text.isDecimalDigit)).isSome = fitsTarget target := by
  have hspace : space < 0x80 := by decide
  rw [some?_append_stop hspace (by decide), fitsTarget]
  cases some? (fun c => !Text.isWhiteSpace c) target with
  | none => rfl
  | some rest =>
    rw [Option.map_some, Option.bind_some]
    rcases rest with _ | ⟨x, rest⟩
    · have hblank : Text.isWhiteSpace (Char.ofNat space.toNat) = true := by decide
      have hone : Text.isDecimalDigit (Char.ofNat (0x31 : UInt8).toNat) = true := by decide
      rw [List.nil_append, one?_cons_ascii hspace, if_pos hblank, Option.bind_some, text?_version,
        Option.bind_some, some?, one?_cons_ascii (by decide), if_pos hone]
      rfl
    · dsimp only
      rw [one?_append_ascii hspace _ _ (List.cons_ne_nil x rest)]
      cases one? Text.isWhiteSpace (x :: rest) with
      | none => rfl
      | some rest =>
        rw [Option.map_some, Option.bind_some, Option.bind_some,
          text?_append_stop _ _ (by decide)]
        cases text? "HTTP/" rest with
        | none => rfl
        | some rest =>
          rw [Option.map_some, Option.bind_some, Option.bind_some,
            some?_append_stop hspace (by decide), Option.isSome_map]

/-- A request line fits the pattern if and only if its method and its target do. -/
theorem isSome_request?_iff {word : Bytes} (hne : word ≠ []) (hword : ∀ x ∈ word, isToken x = true)
    (target : Bytes) (d : UInt8) (tail : Bytes) :
    (request? (word ++ space :: (target ++ space :: (Head.versionMark ++ d :: tail)))).isSome = true
      ↔ word.all isCapitalOctet = true ∧ fitsTarget target = true := by
  have hspace : space < 0x80 := by decide
  have hblank : Text.isWhiteSpace (Char.ofNat space.toNat) = true := by decide
  obtain ⟨hall, hnot⟩ := many_isCapital_word hword
  rw [request?, some?_append_stop hspace (by decide)]
  obtain ⟨x, w, rfl⟩ := List.exists_cons_of_ne_nil hne
  have hascii := (ascii_of_isToken (hword x List.mem_cons_self)).1
  rw [some?, one?_cons_ascii hascii, isCapital_ofNat]
  cases hx : isCapitalOctet x
  · simp [hx]
  have hmany : many isCapital (x :: w) = many isCapital w := by
    rw [many_cons_ascii hascii, isCapital_ofNat, hx, if_pos rfl]
  rw [if_pos rfl, Option.map_some, Option.map_some, ← hmany]
  cases hw : (x :: w).all isCapitalOctet
  · simp only [Option.bind_eq_bind, Option.bind_some, hnot hw]
    simp
  · simp only [Option.bind_eq_bind, Option.bind_some, hall hw, List.nil_append,
      one?_cons_ascii hspace, hblank, if_true, true_and]
    rw [← isSome_behind_method target d tail]

/-- A status line fits the pattern if and only if a capital follows what ends its code. -/
theorem isSome_status? {d x y z : UInt8} {tail : Bytes} (hd : d = 0x30 ∨ d = 0x31)
    (hx : isDigit x = true) (hy : isDigit y = true) (hz : isDigit z = true)
    (htail : ∀ a ∈ tail.head?, a = space ∨ a = carriageReturn) :
    (status? (Head.versionMark ++ d :: space :: x :: y :: z :: tail)).isSome
      = (one? isCapital tail.tail).isSome := by
  have hspace : space < 0x80 := by decide
  have hblank : Text.isWhiteSpace (Char.ofNat space.toNat) = true := by decide
  have hpoint : Text.isDecimalDigit (Char.ofNat (0x2E : UInt8).toNat) = false := by decide
  have hone : Text.isDecimalDigit (Char.ofNat (0x31 : UInt8).toNat) = true := by decide
  have hdigit : isDigit d = true := by rcases hd with rfl | rfl <;> decide
  obtain ⟨hdascii, hddigit⟩ := ascii_of_isDigit hdigit
  obtain ⟨hxascii, hxdigit⟩ := ascii_of_isDigit hx
  obtain ⟨hyascii, hydigit⟩ := ascii_of_isDigit hy
  obtain ⟨hzascii, hzdigit⟩ := ascii_of_isDigit hz
  have hminors : minors (0x2E :: d :: space :: x :: y :: z :: tail)
      = space :: x :: y :: z :: tail := by
    have hgroup : text? "." (0x2E :: d :: space :: x :: y :: z :: tail)
        = some (d :: space :: x :: y :: z :: tail) := text?_eq_some_iff.2 rfl
    rw [minors_of_group hgroup (by rw [one?_cons_ascii hdascii, if_pos hddigit]), minors_of_none]
    exact Option.eq_none_iff_forall_not_mem.2 fun rest hrest =>
      absurd (List.cons.inj (text?_eq_some_iff.1 hrest)).1 (by decide)
  have hmany : many Text.isDecimalDigit tail = tail := by
    rcases tail with _ | ⟨a, u⟩
    · exact many_of_none [] rfl
    · rcases htail a rfl with rfl | rfl
      · rw [many_cons_ascii (by decide), if_neg (by decide)]
      · rw [many_cons_ascii (by decide), if_neg (by decide)]
  have hlast : (one? Text.isWhiteSpace tail).bind (one? isCapital) = one? isCapital tail.tail := by
    rcases tail with _ | ⟨a, u⟩
    · rfl
    · rcases htail a rfl with rfl | rfl
      · rw [one?_cons_ascii (by decide), if_pos (by decide)]
        rfl
      · rw [one?_cons_ascii (by decide), if_pos (by decide)]
        rfl
  simp only [status?, text?_version, Option.bind_eq_bind, Option.bind_some, some?,
    one?_cons_ascii (show (0x31 : UInt8) < 0x80 by decide), hone, if_true, Option.map_some,
    many_cons_ascii (show (0x2E : UInt8) < 0x80 by decide), hpoint, Bool.false_eq_true, if_false,
    hminors, one?_cons_ascii hspace, hblank, one?_cons_ascii hxascii, hxdigit,
    many_cons_ascii hyascii, hydigit, many_cons_ascii hzascii, hzdigit, hmany, hlast]

/-! ### The first line -/

theorem here?_eq_request_iff {b : Bytes} :
    here? b = some .request ↔ (request? b).isSome = true := by
  unfold here?
  split_ifs <;> simp_all

theorem here?_eq_response_iff {b : Bytes} :
    here? b = some .response ↔ (status? b).isSome = true := by
  unfold here?
  by_cases hs : (status? b).isSome = true
  · simp [hs, request?_of_status? hs]
  · split_ifs <;> simp [hs]

/-- An empty line is no start line. -/
theorem leading?_of_empty_line {x : UInt8} (hx : x = lineFeed ∨ x = carriageReturn) (b : Bytes) :
    leading? (x :: b) = none := by
  have hempty : here? [] = none := by decide +kernel
  rcases hx with rfl | rfl
  · exact hempty
  · have hline : (carriageReturn :: b).takeWhile (· ≠ lineFeed)
        = carriageReturn :: b.takeWhile (· ≠ lineFeed) := List.takeWhile_cons_of_pos (by decide)
    have hascii : carriageReturn < 0x80 := by decide
    have hcapital : ¬ isCapital (Char.ofNat carriageReturn.toNat) = true := by decide
    have hrequest : ∀ b, request? (carriageReturn :: b) = none := fun b => by
      rw [request?, some?, one?_cons_ascii hascii, if_neg hcapital]
      rfl
    have hversion : ∀ b, text? "HTTP/" (carriageReturn :: b) = none := fun b =>
      Option.eq_none_iff_forall_not_mem.2 fun rest hrest =>
        absurd (List.cons.inj (text?_eq_some_iff.1 hrest)).1 (by decide)
    have hstatus : ∀ b, status? (carriageReturn :: b) = none := fun b => by
      rw [status?, hversion]
      rfl
    rw [leading?, hline, here?, hrequest, hstatus]
    rfl

theorem not_opensAs_of_empty_line {x : UInt8} (hx : x = lineFeed ∨ x = carriageReturn) (b : Bytes)
    (kind : Kind) : ¬ OpensAs kind (x :: b) := by
  cases kind with
  | request =>
    have hsplit : (x :: b).takeWhile (· ≠ space) = x :: b.takeWhile (· ≠ space) :=
      List.takeWhile_cons_of_pos (by rcases hx with rfl | rfl <;> decide)
    have hcapital : isCapitalOctet x = false := by rcases hx with rfl | rfl <;> decide
    rintro ⟨hall, -⟩
    rw [hsplit, List.all_cons, hcapital] at hall
    cases hall
  | response =>
    rintro ⟨⟨rest, hrest⟩, -⟩
    have hmark : x = 0x48 := (List.cons.inj hrest).1.symm
    rcases hx with rfl | rfl <;> exact absurd hmark (by decide)

/-- Bytes up to the first one of a kind. -/
theorem split_at_first {a : UInt8} {before : Bytes} (h : ∀ x ∈ before, x ≠ a) (rest : Bytes) :
    (before ++ a :: rest).takeWhile (· ≠ a) = before ∧
      (before ++ a :: rest).dropWhile (· ≠ a) = a :: rest := by
  have hall : ∀ x ∈ before, decide (x ≠ a) = true := fun x hx => by simpa using h x hx
  rw [List.takeWhile_append_of_pos hall, List.dropWhile_append_of_pos hall]
  exact ⟨by simp, by simp⟩

/-- The first line goes on behind bytes without a line feed. -/
theorem takeWhile_line {before : Bytes} (h : ∀ x ∈ before, x ≠ lineFeed) (rest : Bytes) :
    (before ++ rest).takeWhile (· ≠ lineFeed) = before ++ rest.takeWhile (· ≠ lineFeed) :=
  List.takeWhile_append_of_pos fun x hx => by simpa using h x hx

/-- A capital at the front is in the first line. -/
theorem isSome_capital_takeWhile (b : Bytes) :
    (one? isCapital (b.takeWhile (· ≠ lineFeed))).isSome = (one? isCapital b).isSome := by
  by_cases hmem : lineFeed ∈ b
  · obtain ⟨line, hline, hb⟩ := exists_line hmem
    have hne : ∀ x ∈ line, x ≠ lineFeed := fun x hx he => hline (he ▸ hx)
    rw [hb, (split_at_first hne _).1, one?_append_stop (by decide) (by decide), Option.isSome_map]
  · have hne : ∀ x ∈ b, x ≠ lineFeed := fun x hx he => hmem (he ▸ hx)
    have hline := takeWhile_line hne []
    rw [List.append_nil] at hline
    rw [hline, List.takeWhile_nil, List.append_nil]

theorem leading?_request_iff {b word target tail : Bytes}
    (h : Head.RequestLine b word target tail) :
    leading? b = some .request ↔ OpensAs .request b := by
  obtain ⟨hne, hword, htarget, d, hd, rfl⟩ := h
  have hw := fun x hx => ne_of_isToken (hword x hx)
  have ht := fun x hx => ne_of_isTarget (htarget x hx)
  have hopens : OpensAs .request
      (word ++ space :: (target ++ space :: (Head.versionMark ++ d :: tail))) ↔
        word.all isCapitalOctet = true ∧ fitsTarget target = true := by
    rw [OpensAs, (split_at_first (fun x hx => (hw x hx).2) _).1,
      (split_at_first (fun x hx => (hw x hx).2) _).2, List.tail_cons,
      (split_at_first (fun x hx => (ht x hx).2) _).1]
  have hparts : ∀ rest, word ++ space :: (target ++ space :: (Head.versionMark ++ d :: rest))
      = (word ++ [space] ++ target ++ [space] ++ Head.versionMark ++ [d]) ++ rest := by simp
  have hno : ∀ x ∈ word ++ [space] ++ target ++ [space] ++ Head.versionMark ++ [d],
      x ≠ lineFeed := by
    have hmark : ∀ x ∈ Head.versionMark, x ≠ lineFeed := by decide +kernel
    have hspace : space ≠ lineFeed := by decide
    have hd : d ≠ lineFeed := by rcases hd with rfl | rfl <;> decide
    intro x hx
    simp only [List.mem_append, List.mem_singleton] at hx
    rcases hx with ((((hx | rfl) | hx) | rfl) | hx) | rfl
    · exact (hw x hx).1
    · exact hspace
    · exact (ht x hx).1
    · exact hspace
    · exact hmark x hx
    · exact hd
  have hline := takeWhile_line hno tail
  rw [← hparts, ← hparts] at hline
  rw [leading?, hline, here?_eq_request_iff, isSome_request?_iff hne hword, hopens]

theorem leading?_response_iff {b tail : Bytes} (h : Head.StatusLine b tail) :
    leading? b = some .response ↔ OpensAs .response b := by
  obtain ⟨hends, d, x, y, z, hd, hx, hy, hz, rfl⟩ := h
  have hparts : ∀ rest, Head.versionMark ++ d :: space :: x :: y :: z :: rest
      = (Head.versionMark ++ [d, space, x, y, z]) ++ rest := by simp
  have hno : ∀ a ∈ Head.versionMark ++ [d, space, x, y, z], a ≠ lineFeed := by
    have hmark : ∀ a ∈ Head.versionMark, a ≠ lineFeed := by decide +kernel
    intro a ha
    rcases List.mem_append.1 ha with ha | ha
    · exact hmark a ha
    · simp only [List.mem_cons, List.not_mem_nil, or_false] at ha
      rcases ha with rfl | rfl | rfl | rfl | rfl
      · rcases hd with rfl | rfl <;> decide
      · decide
      · exact ne_of_isDigit hx
      · exact ne_of_isDigit hy
      · exact ne_of_isDigit hz
  have hopens : OpensAs .response (Head.versionMark ++ d :: space :: x :: y :: z :: tail) ↔
      tail.head? = some space ∧ (one? isCapital tail.tail).isSome = true := by
    have hmark : Head.versionMark = [0x48, 0x54, 0x54, 0x50, 0x2F, 0x31, 0x2E] := by decide +kernel
    simp [OpensAs, hmark, List.head?_eq_getElem?]
  have hline := takeWhile_line hno tail
  rw [← hparts, ← hparts] at hline
  rw [leading?, hline, here?_eq_response_iff, hopens]
  rcases hends with ⟨rest, rfl⟩ | ⟨rest, rfl | rfl⟩
  · rw [List.takeWhile_cons_of_pos (by decide), isSome_status? hd hx hy hz (by simp),
      List.tail_cons, isSome_capital_takeWhile]
    simp
  -- Behind a code at the end of a line, that line has nothing, and the pattern looks no further.
  · rw [List.takeWhile_cons_of_neg (by decide), isSome_status? hd hx hy hz (by simp)]
    exact ⟨fun h => absurd h (by decide), fun h => absurd (Option.some.inj h.1) (by decide)⟩
  · rw [List.takeWhile_cons_of_pos (by decide), List.takeWhile_cons_of_neg (by decide),
      isSome_status? hd hx hy hz (by simp)]
    exact ⟨fun h => absurd h (by decide), fun h => absurd (Option.some.inj h.1) (by decide)⟩

/-- The first line of a message that can be read is a start line exactly if the message opens with
one that fits. Otherwise the message is not recognized behind another one, nor taken for one of the
other kind. -/
theorem leading?_iff_opensAs {kind : Kind} {b : Bytes} {m : Message} (hfirst : first? b = some kind)
    (hp : Message.parse kind b = .ok m) :
    (leading? b = some kind ↔ OpensAs kind b) ∧ (¬ OpensAs kind b → leading? b = none) := by
  have hiff : leading? b = some kind ↔ OpensAs kind b := by
    obtain ⟨head, next, -, -, hs, -⟩ := Message.parse_eq_ok_iff.1 hp
    simp only [Head.scan, Scan.bind_eq_found] at hs
    obtain ⟨_, c, hempty, status, c₁, hstart, -⟩ := hs
    rcases Head.skipEmptyLines_eq_found hempty with rfl | ⟨x, more, hx, rfl⟩
    · cases kind with
      | request =>
        obtain ⟨word, target, tail, h⟩ := Head.requestLine_of_startLine hstart
        exact leading?_request_iff h
      | response =>
        obtain ⟨tail, h⟩ := Head.statusLine_of_startLine hstart
        exact leading?_response_iff h
    · simp [leading?_of_empty_line hx, not_opensAs_of_empty_line hx]
  refine ⟨hiff, fun hnot => ?_⟩
  rcases hl : leading? b with _ | kind'
  · rfl
  · have := first?_of_leading? hl
    rw [hfirst] at this
    obtain rfl := Option.some.inj this
    exact absurd (hiff.1 hl) hnot

/-- A request, and the same request behind an empty line. -/
theorem leading?_request_behind_empty_line :
    let b := Bytes.ofText "GET / HTTP/1.1\r\n\r\n"
    leading? b = some .request ∧ leading? (Bytes.ofText "\r\n" ++ b) = none := by
  intro b
  have hp : Message.parse .request b = .ok ⟨.request, b, [], true, [], none, none⟩ := by
    decide +kernel
  have hp' : Message.parse .request (Bytes.ofText "\r\n" ++ b)
      = .ok ⟨.request, Bytes.ofText "\r\n" ++ b, [], true, [], none, none⟩ := by decide +kernel
  exact ⟨(leading?_iff_opensAs (by decide +kernel) hp).1.2 (by decide +kernel),
    (leading?_iff_opensAs (by decide +kernel) hp').2 (by decide +kernel)⟩

/-- A request behind an empty line, one whose method is no word of capitals with a start line
further on, and a response whose start line goes on like one in the next line: each can be read as a
message of the kind that is found, and none is recognized in its first line. -/
theorem readable_but_not_leading :
    let behindEmptyLine := Bytes.ofText "\r\nGET / HTTP/1.1\r\n\r\n"
    let search := Bytes.ofText "M-SEARCH * HTTP/1.1\r\n\r\nGET / HTTP/1.1\r\n\r\n"
    let overTheEnd := Bytes.ofText "HTTP/1.1 200\nA: b\nContent-Length: 0\n\n"
    (first? behindEmptyLine = some .request ∧
        (Message.parse .request behindEmptyLine).toOption.isSome = true ∧
        leading? behindEmptyLine = none) ∧
      (first? search = some .request ∧
        (Message.parse .request search).toOption.isSome = true ∧ leading? search = none) ∧
      first? overTheEnd = some .response ∧
        (Message.parse .response overTheEnd).toOption.isSome = true ∧
        leading? overTheEnd = none := by
  decide +kernel

end StartLine

end Content.Http

end Trawl
