import Mathlib.Data.List.TakeWhile
import Trawl.Proofs.Content.Continued

/-!
# Start lines that more bytes follow

A start line that is found at the front is found there where more bytes follow, and as the same
kind (`here?_append`): each class of characters ends at a character of another class, so only the
digits at the end of a request line can go on. A start line that is the first line is therefore
also the first one that is found anywhere (`first?_of_leading?`), and the first line ends within any
complete head (`endsLine_scan`).
-/

namespace Trawl

namespace Text.Utf8

theorem readMore_append {value n : Nat} {low high : UInt8} {b rest : Bytes} {v : Nat} (more : Bytes)
    (h : readMore value n low high b = .char v rest) :
    readMore value n low high (b ++ more) = .char v (rest ++ more) := by
  induction b generalizing value n low high with
  | nil =>
    cases n with
    | zero =>
      cases h
      simp [readMore]
    | succ n => cases h
  | cons c b ih =>
    cases n with
    | zero =>
      cases h
      simp [readMore]
    | succ n =>
      simp only [readMore, List.cons_append] at h ⊢
      split at h <;> rename_i hc
      · rw [if_pos hc]
        exact ih h
      · cases h

theorem next?_append {b rest : Bytes} {c : Char} (more : Bytes) (h : next? b = some (c, rest)) :
    next? (b ++ more) = some (c, rest ++ more) := by
  cases b with
  | nil => cases h
  | cons a b =>
    simp only [next?, List.cons_append, readFrom] at h ⊢
    cases hl : lead? a with
    | none => simp [hl] at h
    | some lead =>
      simp only [hl] at h ⊢
      split at h <;> rename_i hread
      · cases h
        rw [readMore_append more hread]
      · cases h

end Text.Utf8

namespace Content.Http

namespace StartLine

variable {p : Char → Bool} {b rest : Bytes} {kind : Kind}

theorem next?_of_one? (h : one? p b = some rest) :
    ∃ c, Text.Utf8.next? b = some (c, rest) ∧ p c = true := by
  unfold one? at h
  split at h
  · rename_i c r hn
    split at h <;> rename_i hp
    · cases h
      exact ⟨c, hn, hp⟩
    · cases h
  · cases h

theorem one?_append (more : Bytes) (h : one? p b = some rest) :
    one? p (b ++ more) = some (rest ++ more) := by
  obtain ⟨c, hn, hp⟩ := next?_of_one? h
  simp [one?, Text.Utf8.next?_append more hn, hp]

theorem many_of_pos {c : Char} (hn : Text.Utf8.next? b = some (c, rest)) (hp : p c = true) :
    many p b = many p rest := by
  rw [many]
  split <;> rename_i h
  · rw [hn] at h
    cases h
    rw [if_pos hp]
  · rw [hn] at h
    cases h

theorem many_of_neg {c : Char} (hn : Text.Utf8.next? b = some (c, rest)) (hp : ¬p c = true) :
    many p b = b := by
  rw [many]
  split <;> rename_i h
  · rw [hn] at h
    cases h
    rw [if_neg hp]
  · rfl

/-- A run of a class ends where it did if a character stands behind it. -/
theorem many_append (more : Bytes) (h : (Text.Utf8.next? (many p b)).isSome) :
    many p (b ++ more) = many p b ++ more := by
  fun_induction many p b with
  | case1 b c rest hn hp ih =>
    rw [many_of_pos (Text.Utf8.next?_append more hn) hp]
    exact ih h
  | case2 b c rest hn hp => exact many_of_neg (Text.Utf8.next?_append more hn) hp
  | case3 b hn => simp [hn] at h

theorem some?_append (more : Bytes) (h : some? p b = some rest)
    (hnext : (Text.Utf8.next? rest).isSome) : some? p (b ++ more) = some (rest ++ more) := by
  obtain ⟨r, hr, rfl⟩ := Option.map_eq_some_iff.1 h
  rw [some?, one?_append more hr, Option.map_some, many_append more hnext]

theorem isSome_some?_append (more : Bytes) (h : (some? p b).isSome) :
    (some? p (b ++ more)).isSome := by
  rw [some?, Option.isSome_map] at h ⊢
  obtain ⟨r, hr⟩ := Option.isSome_iff_exists.1 h
  simp [one?_append more hr]

theorem isSome_next?_of_one? (h : (one? p b).isSome) : (Text.Utf8.next? b).isSome := by
  obtain ⟨r, hr⟩ := Option.isSome_iff_exists.1 h
  obtain ⟨c, hn, -⟩ := next?_of_one? hr
  simp [hn]

theorem text?_eq_some_iff {text : String} :
    text? text b = some rest ↔ b = Bytes.ofText text ++ rest := by
  unfold text?
  dsimp only
  constructor
  · intro h
    split at h <;> rename_i hp
    · obtain ⟨r, rfl⟩ := List.isPrefixOf_iff_prefix.1 hp
      simpa using h
    · cases h
  · rintro rfl
    simp

theorem text?_append {text : String} (more : Bytes) (h : text? text b = some rest) :
    text? text (b ++ more) = some (rest ++ more) := by
  rw [text?_eq_some_iff] at h ⊢
  rw [h, List.append_assoc]

/-- The point before a digit of a version. -/
theorem next?_of_point (ht : text? "." b = some rest) :
    Text.Utf8.next? b = some ('.', rest) := by
  rw [text?_eq_some_iff.1 ht]
  exact Text.Utf8.next?_ascii (by decide) rest

theorem minors_of_group {afterPoint : Bytes} (ht : text? "." b = some afterPoint)
    (ho : one? Text.isDecimalDigit afterPoint = some rest) : minors b = minors rest := by
  rw [minors]
  split
  · rename_i hn
    rw [ht] at hn
    cases hn
  · rename_i hs
    rw [ht] at hs
    cases hs
    split
    · rename_i hn
      rw [ho] at hn
      cases hn
    · rename_i hs
      rw [ho] at hs
      cases hs
      rfl

theorem minors_of_none (ht : text? "." b = none) : minors b = b := by
  rw [minors]
  split
  · rfl
  · rename_i hs
    rw [ht] at hs
    cases hs

/-- Where white space follows the groups of a version, the groups end there whatever follows that;
and the digits before the first group end at its point or at the white space. -/
theorem minors_append (more : Bytes) (h : (one? Text.isWhiteSpace (minors b)).isSome) :
    minors (b ++ more) = minors b ++ more ∧ (Text.Utf8.next? b).isSome := by
  fun_induction minors b with
  | case1 b ht =>
    refine ⟨minors_of_none ?_, isSome_next?_of_one? h⟩
    cases b with
    | nil => cases h
    | cons a b =>
      rw [Option.eq_none_iff_forall_not_mem]
      intro rest hrest
      have hcons := text?_eq_some_iff.1 hrest
      have ha : a = 0x2E := (List.cons.inj hcons).1
      have hb : text? "." (a :: b) = some b := text?_eq_some_iff.2 (by rw [ha]; rfl)
      rw [ht] at hb
      cases hb
  | case2 b afterPoint ht ho =>
    have hpoint : one? Text.isWhiteSpace b = none := by
      rw [one?, next?_of_point ht]
      rfl
    rw [hpoint] at h
    cases h
  | case3 b afterPoint ht rest ho ih =>
    rw [minors_of_group (text?_append more ht) (one?_append more ho), next?_of_point ht]
    exact ⟨(ih h).1, rfl⟩

theorem isSome_request?_append (more : Bytes) (h : (request? b).isSome) :
    (request? (b ++ more)).isSome := by
  obtain ⟨last, h⟩ := Option.isSome_iff_exists.1 h
  simp only [request?, Option.bind_eq_bind, Option.bind_eq_some_iff] at h
  obtain ⟨b₁, h₁, b₂, h₂, b₃, h₃, b₄, h₄, b₅, h₅, h₆⟩ := h
  -- White space ends the first two words, but nothing the version: its last digits may go on.
  have hnext₁ := isSome_next?_of_one? (Option.isSome_of_eq_some h₂)
  have hnext₃ := isSome_next?_of_one? (Option.isSome_of_eq_some h₄)
  simp only [request?, Option.bind_eq_bind, some?_append more h₁ hnext₁, one?_append more h₂,
    some?_append more h₃ hnext₃, one?_append more h₄, text?_append more h₅, Option.bind_some]
  exact isSome_some?_append more (Option.isSome_of_eq_some h₆)

theorem isSome_status?_append (more : Bytes) (h : (status? b).isSome) :
    (status? (b ++ more)).isSome := by
  obtain ⟨last, h⟩ := Option.isSome_iff_exists.1 h
  simp only [status?, Option.bind_eq_bind, Option.bind_eq_some_iff] at h
  obtain ⟨b₁, h₁, b₂, h₂, b₃, h₃, b₄, h₄, b₅, h₅, h₆⟩ := h
  obtain ⟨hminors, hnext₂⟩ := minors_append more (Option.isSome_of_eq_some h₃)
  have hnext₄ := isSome_next?_of_one? (Option.isSome_of_eq_some h₅)
  simp only [status?, Option.bind_eq_bind, text?_append more h₁, some?_append more h₂ hnext₂,
    hminors, one?_append more h₃, some?_append more h₄ hnext₄, one?_append more h₅,
    Option.bind_some]
  exact Option.isSome_of_eq_some (one?_append more h₆)

/-- No request line starts where a status line does: there the first word ends at a slash. -/
theorem request?_of_status? (h : (status? b).isSome) : request? b = none := by
  obtain ⟨last, h⟩ := Option.isSome_iff_exists.1 h
  simp only [status?, Option.bind_eq_bind, Option.bind_eq_some_iff] at h
  obtain ⟨rest, htext, -⟩ := h
  obtain rfl := text?_eq_some_iff.1 htext
  have hletters : Bytes.ofText "HTTP/" ++ rest = 0x48 :: 0x54 :: 0x54 :: 0x50 :: 0x2F :: rest := rfl
  have hword : some? isCapital (Bytes.ofText "HTTP/" ++ rest) = some (0x2F :: rest) := by
    rw [hletters, some?, one?, Text.Utf8.next?_ascii (by decide)]
    dsimp only
    rw [if_pos (by decide), Option.map_some,
      many_of_pos (Text.Utf8.next?_ascii (by decide) _) (by decide),
      many_of_pos (Text.Utf8.next?_ascii (by decide) _) (by decide),
      many_of_pos (Text.Utf8.next?_ascii (by decide) _) (by decide),
      many_of_neg (Text.Utf8.next?_ascii (by decide) _) (by decide)]
  have hslash : one? Text.isWhiteSpace (0x2F :: rest) = none := by
    rw [one?, Text.Utf8.next?_ascii (by decide)]
    rfl
  rw [request?, hword]
  simp only [Option.bind_eq_bind, Option.bind_some, hslash, Option.bind_none]

theorem here?_append (more : Bytes) (h : here? b = some kind) : here? (b ++ more) = some kind := by
  unfold here? at h ⊢
  split at h <;> rename_i hrequest
  · rw [if_pos (isSome_request?_append more hrequest)]
    exact h
  · split at h <;> rename_i hstatus
    · have hstatus := isSome_status?_append more hstatus
      rw [if_neg (by simp [request?_of_status? hstatus]), if_pos hstatus]
      exact h
    · cases h

/-- A start line that is the first line is the first start line. -/
theorem first?_of_leading? (h : leading? b = some kind) : first? b = some kind := by
  have hhere := here?_append (b.dropWhile (· ≠ lineFeed)) h
  rw [List.takeWhile_append_dropWhile] at hhere
  rw [first?, hhere]

/-- Whether the first line is a start line does not depend on what follows it. -/
theorem leading?_append (more : Bytes) (h : lineFeed ∈ b) : leading? (b ++ more) = leading? b := by
  obtain ⟨before, after, rfl⟩ := List.append_of_mem h
  simp [leading?, List.takeWhile_append]

theorem nextLine_of_not_mem (h : lineFeed ∉ b) : nextLine b = [] := by
  have hall : b.dropWhile (· ≠ lineFeed) = [] :=
    List.dropWhile_eq_nil_iff.2 fun x hx => by
      have : x ≠ lineFeed := fun he => h (he ▸ hx)
      simpa using this
  rw [nextLine, hall, List.tail_nil]

/-- A line goes up to the first line feed. -/
theorem exists_line (h : lineFeed ∈ b) :
    ∃ line, lineFeed ∉ line ∧ b = line ++ lineFeed :: nextLine b := by
  refine ⟨b.takeWhile (· ≠ lineFeed), fun hmem => by simpa using List.mem_takeWhile_imp hmem, ?_⟩
  have hne : b.dropWhile (· ≠ lineFeed) ≠ [] := fun he => by
    simpa using List.dropWhile_eq_nil_iff.1 he lineFeed h
  have hhead := List.head_dropWhile_not (· ≠ lineFeed) hne
  obtain ⟨x, next, hcons⟩ := List.exists_cons_of_ne_nil hne
  simp only [hcons, List.head_cons, decide_eq_false_iff_not, ne_eq, not_not] at hhead
  rw [nextLine, hcons, List.tail_cons, ← hhead, ← hcons, hhead, List.takeWhile_append_dropWhile]

end StartLine

namespace Scan

/-- Whether a scan only finds something where a line ends. -/
def EndsLine {α : Type} (scan : Scan α) : Prop :=
  ∀ (c c' : Cursor) (value : α), scan c = .found value c' → lineFeed ∈ c.rest

variable {α β : Type} {scan : Scan α} {next : α → Scan β}

theorem endsLine_fail (fault : HeadFault) : (fail fault : Scan α).EndsLine := by
  intro c c' v h
  simp [fail] at h

theorem EndsLine.bind_left (h : scan.EndsLine) : (scan >>= next).EndsLine := by
  intro c c' v hs
  simp only [Bind.bind] at hs
  split at hs
  · rename_i hfound
    exact h _ _ _ hfound
  · cases hs
  · cases hs

theorem EndsLine.bind_right {n : Nat} (h : scan.Passes n) (hn : ∀ value, (next value).EndsLine) :
    (scan >>= next).EndsLine := by
  intro c c' v hs
  simp only [Bind.bind] at hs
  split at hs
  · rename_i value c₁ hfound
    obtain ⟨passed, hr, -, -⟩ := h _ _ _ hfound
    rw [hr]
    exact List.mem_append_right _ (hn value c₁ c' v hs)
  · cases hs
  · cases hs

theorem endsLine_octet_bind {next : UInt8 → Scan β}
    (hn : ∀ b, b ≠ lineFeed → (next b).EndsLine) : (octet >>= next).EndsLine := by
  rintro ⟨offset, rest⟩ c' v hs
  cases rest with
  | nil => cases hs
  | cons b rest =>
    by_cases hb : b = lineFeed
    · simp [hb]
    · exact List.mem_cons_of_mem _ (hn b hb _ _ _ hs)

theorem endsLine_expect (fault : HeadFault) : (expect (· = lineFeed) fault).EndsLine :=
  endsLine_octet_bind fun b hb => by
    simpa [hb] using endsLine_fail fault

end Scan

namespace Head

open Scan

theorem endsLine_feed (fault : HeadFault) : (feed fault).EndsLine :=
  (endsLine_expect fault).bind_left

theorem endsLine_lineEnd (fault : HeadFault) : (lineEnd fault).EndsLine :=
  endsLine_octet_bind fun b hb => by
    split_ifs
    · exact endsLine_feed fault
    · exact endsLine_fail fault

theorem endsLine_headerLine : headerLine.EndsLine :=
  endsLine_octet_bind fun b hb => by
    split_ifs
    · exact (endsLine_feed _).bind_left
    · exact .bind_right (passes_span _) fun _ => .bind_right (passes_expect _ _) fun _ =>
        .bind_right (passes_span _) fun _ => .bind_right (passes_span _) fun _ =>
          (endsLine_lineEnd _).bind_left
    · exact endsLine_fail _

theorem endsLine_headerLines (room : Nat) : (headerLines room).EndsLine := by
  cases room <;> exact endsLine_headerLine.bind_left

theorem endsLine_scan (kind : Kind) : (scan kind).EndsLine :=
  .bind_right passes_emptyLines fun _ => .bind_right (passes_startLine kind) fun _ =>
    (endsLine_headerLines _).bind_left

end Head

theorem Message.lineFeed_mem {kind : Kind} {b : Bytes} {m : Message} (h : parse kind b = .ok m) :
    lineFeed ∈ b := by
  obtain ⟨head, next, -, -, hs, -⟩ := parse_eq_ok_iff.1 h
  exact Head.endsLine_scan kind _ _ _ hs

end Content.Http

end Trawl
