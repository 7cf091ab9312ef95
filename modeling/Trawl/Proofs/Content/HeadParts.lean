import Mathlib.Tactic.SplitIfs
import Trawl.Content.Http.Head

/-!
# The parts of a start line

A scan that finds something has passed over bytes of the classes that it expects, and stands behind
them (`Scan.expect_eq_found`, `Scan.span_eq_found`). So the bytes at which a start line is read are
a method, a target and a version, or a version and a code, with one space between each and the next
(`Head.requestLine_of_startLine`, `Head.statusLine_of_startLine`).
-/

namespace Trawl.Content.Http

namespace Scan

variable {α β : Type} {c c' : Cursor}

theorem bind_eq_found {scan : Scan α} {next : α → Scan β} {v : β} :
    (scan >>= next) c = .found v c' ↔
      ∃ value c₁, scan c = .found value c₁ ∧ next value c₁ = .found v c' := by
  simp only [Bind.bind]
  cases scan c <;> simp [and_assoc]

theorem octet_eq_found {v : UInt8} (h : octet c = .found v c') : c.rest = v :: c'.rest := by
  unfold octet at h
  split at h
  · cases h
  · rename_i hr
    cases h
    exact hr

theorem expect_eq_found {p : UInt8 → Bool} {fault : HeadFault} {v : UInt8}
    (h : expect p fault c = .found v c') : c.rest = v :: c'.rest ∧ p v = true := by
  obtain ⟨b, c₁, hb, h⟩ := bind_eq_found.1 h
  split at h <;> rename_i hp
  · cases h
    exact ⟨octet_eq_found hb, hp⟩
  · cases h

theorem spanFrom_eq_found {p : UInt8 → Bool} {value : Bytes} :
    ∀ {done b : Bytes} {offset : Nat}, spanFrom p done offset b = .found value c →
      ∃ run, value = done.reverse ++ run ∧ b = run ++ c.rest ∧ ∀ x ∈ run, p x = true
  | done, [], _, h => by cases h
  | done, a :: b, offset, h => by
    simp only [spanFrom] at h
    split at h <;> rename_i ha
    · obtain ⟨run, hvalue, hb, hrun⟩ := spanFrom_eq_found h
      exact ⟨a :: run, by simp [hvalue], by simp [hb], by simpa [ha] using hrun⟩
    · cases h
      exact ⟨[], by simp, rfl, by simp⟩

theorem span_eq_found {p : UInt8 → Bool} {value : Bytes} (h : span p c = .found value c') :
    c.rest = value ++ c'.rest ∧ ∀ x ∈ value, p x = true := by
  obtain ⟨run, rfl, hr, hrun⟩ := spanFrom_eq_found h
  exact ⟨hr, hrun⟩

end Scan

namespace Head

open Scan

variable {c c' : Cursor} {b : Bytes}

/-- Whether bytes start with the end of a line. -/
def StartsEnd (b : Bytes) : Prop :=
  ∃ rest, b = lineFeed :: rest ∨ b = carriageReturn :: lineFeed :: rest

theorem feed_eq_found {fault : HeadFault} {v : Unit} (h : feed fault c = .found v c') :
    ∃ rest, c.rest = lineFeed :: rest := by
  obtain ⟨x, c₁, hx, -⟩ := bind_eq_found.1 h
  obtain ⟨hr, hx⟩ := expect_eq_found hx
  exact ⟨_, by rw [hr, of_decide_eq_true hx]⟩

theorem version_eq_found {v : Unit} (h : version c = .found v c') :
    ∃ d, (d = 0x30 ∨ d = 0x31) ∧ c.rest = versionMark ++ d :: c'.rest := by
  unfold version at h
  split at h
  · rename_i text rest hs
    split at h <;> rename_i hv
    · cases h
      obtain ⟨hr, -⟩ := Bytes.split?_eq_some hs
      rcases hv with rfl | rfl
      · exact ⟨_, .inl rfl, by simp [hr]⟩
      · exact ⟨_, .inr rfl, by simp [hr]⟩
    · cases h
  · split at h <;> cases h

theorem method_eq_found {v : Unit} (h : method c = .found v c') :
    ∃ word, word ≠ [] ∧ (∀ x ∈ word, isToken x = true) ∧ c.rest = word ++ space :: c'.rest := by
  simp only [method, bind_eq_found] at h
  obtain ⟨x, c₁, hx, more, c₂, hmore, y, c₃, hy, h⟩ := h
  cases h
  obtain ⟨hr, hx⟩ := expect_eq_found hx
  obtain ⟨hr₁, hmore⟩ := span_eq_found hmore
  obtain ⟨hr₂, hy⟩ := expect_eq_found hy
  refine ⟨x :: more, by simp, by simpa [hx] using hmore, ?_⟩
  rw [hr, hr₁, hr₂, of_decide_eq_true hy, List.cons_append]

theorem target_eq_found {v : Unit} (h : target c = .found v c') :
    ∃ word, (∀ x ∈ word, isTarget x = true) ∧ c.rest = word ++ space :: c'.rest := by
  simp only [target, bind_eq_found] at h
  obtain ⟨word, c₁, hword, y, c₂, hy, h⟩ := h
  split at h
  · cases h
  cases h
  obtain ⟨hr, hword⟩ := span_eq_found hword
  obtain ⟨hr₁, hy⟩ := expect_eq_found hy
  exact ⟨word, hword, by rw [hr, hr₁, of_decide_eq_true hy]⟩

theorem digit_eq_found {v : Nat} (h : digit c = .found v c') :
    ∃ x, isDigit x = true ∧ c.rest = x :: c'.rest := by
  obtain ⟨x, c₁, hx, h⟩ := bind_eq_found.1 h
  cases h
  obtain ⟨hr, hx⟩ := expect_eq_found hx
  exact ⟨x, hx, hr⟩

theorem reason_eq_found {v : Unit} (h : reason c = .found v c') :
    (∃ rest, c.rest = space :: rest) ∨ StartsEnd c.rest := by
  obtain ⟨x, c₁, hx, h⟩ := bind_eq_found.1 h
  have hr := octet_eq_found hx
  split_ifs at h with hspace hreturn hfeed
  · exact .inl ⟨_, by rw [hr, hspace]⟩
  · obtain ⟨rest, hrest⟩ := feed_eq_found h
    exact .inr ⟨rest, .inr (by rw [hr, hreturn, hrest])⟩
  · exact .inr ⟨_, .inl (by rw [hr, hfeed])⟩
  · cases h

theorem skipEmptyLines_eq_found {offset : Nat} {v : Unit}
    (h : skipEmptyLines offset b = .found v c) :
    b = c.rest ∨ ∃ x more, (x = lineFeed ∨ x = carriageReturn) ∧ b = x :: more := by
  unfold skipEmptyLines at h
  split at h
  · cases h
  · split_ifs at h with hfeed hreturn
    · exact .inr ⟨_, _, .inl hfeed, rfl⟩
    · exact .inr ⟨_, _, .inr hreturn, rfl⟩
    · cases h
      exact .inl rfl

/-- The parts of a request line. -/
structure RequestLine (b word target tail : Bytes) : Prop where
  word_ne : word ≠ []
  isToken : ∀ x ∈ word, isToken x = true
  isTarget : ∀ x ∈ target, isTarget x = true
  eq : ∃ d, (d = 0x30 ∨ d = 0x31) ∧
    b = word ++ space :: (target ++ space :: (versionMark ++ d :: tail))

/-- The parts of a status line: what stands behind the code. -/
structure StatusLine (b tail : Bytes) : Prop where
  ends : (∃ rest, tail = space :: rest) ∨ StartsEnd tail
  eq : ∃ d x y z, (d = 0x30 ∨ d = 0x31) ∧ isDigit x = true ∧ isDigit y = true ∧ isDigit z = true ∧
    b = versionMark ++ d :: space :: x :: y :: z :: tail

theorem requestLine_of_startLine {v : Option Nat} (h : startLine .request c = .found v c') :
    ∃ word target tail, RequestLine c.rest word target tail := by
  simp only [startLine, bind_eq_found] at h
  obtain ⟨_, c₁, hmethod, _, c₂, htarget, _, c₃, hversion, -⟩ := h
  obtain ⟨word, hne, hword, hr⟩ := method_eq_found hmethod
  obtain ⟨target, htarget, hr₁⟩ := target_eq_found htarget
  obtain ⟨d, hd, hr₂⟩ := version_eq_found hversion
  exact ⟨word, target, c₃.rest, hne, hword, htarget, d, hd, by rw [hr, hr₁, hr₂]⟩

theorem statusLine_of_startLine {v : Option Nat} (h : startLine .response c = .found v c') :
    ∃ tail, StatusLine c.rest tail := by
  simp only [startLine, code, bind_eq_found] at h
  obtain ⟨_, c₁, hversion, s, c₂, hspace, _, c₃, ⟨_, c₄, hx, _, c₅, hy, _, c₆, hz, hcode⟩, _, c₇,
    hreason, -⟩ := h
  cases hcode
  obtain ⟨d, hd, hr⟩ := version_eq_found hversion
  obtain ⟨hr₁, hs⟩ := expect_eq_found hspace
  obtain ⟨x, hx, hr₂⟩ := digit_eq_found hx
  obtain ⟨y, hy, hr₃⟩ := digit_eq_found hy
  obtain ⟨z, hz, hr₄⟩ := digit_eq_found hz
  exact ⟨_, reason_eq_found hreason, d, x, y, z, hd, hx, hy, hz, by
    rw [hr, hr₁, of_decide_eq_true hs, hr₂, hr₃, hr₄]⟩

end Head

end Trawl.Content.Http
