import Trawl.Bytes

/-!
# Scanning a message head

A head is scanned byte by byte from the front. A scan finds something and stands behind it, or runs
out of bytes, or meets a byte that cannot stand there; which of the last two happens is decided by
whatever comes first. A scan only ends behind a byte that it has seen, never because the bytes end,
so more bytes at the end do not change what it finds.
-/

namespace Trawl.Content.Http

/-- What is wrong with a head. -/
inductive HeadFault where
  | headerName
  | headerValue
  | newLine
  | status
  | token
  | tooManyHeaders
  | version
  deriving DecidableEq, Repr

/-- A place in a byte string. -/
structure Cursor where
  /-- How many bytes lie before it. -/
  offset : Nat
  /-- The bytes after it. -/
  rest : Bytes
  deriving DecidableEq, Repr

/-- What a scan comes to. -/
inductive Outcome (α : Type) where
  | found (value : α) (next : Cursor)
  /-- The bytes end too early. -/
  | short
  | bad (fault : HeadFault)
  deriving DecidableEq, Repr

/-- A scan from a place on. -/
def Scan (α : Type) : Type :=
  Cursor → Outcome α

namespace Scan

instance : Monad Scan where
  pure value := fun c => .found value c
  bind scan next := fun c =>
    match scan c with
    | .found value c => next value c
    | .short => .short
    | .bad fault => .bad fault

/-- No byte may stand here. -/
def fail {α : Type} (fault : HeadFault) : Scan α :=
  fun _ => .bad fault

/-- The next byte. -/
def octet : Scan UInt8 := fun c =>
  match c.rest with
  | [] => .short
  | b :: rest => .found b ⟨c.offset + 1, rest⟩

/-- Passes over the next byte, which has to be of a class. -/
def expect (p : UInt8 → Bool) (fault : HeadFault) : Scan UInt8 := do
  let b ← octet
  if p b then pure b else fail fault

/-- Bytes up to the first that is not of a class, added to those of `done`, the last one first. -/
def spanFrom (p : UInt8 → Bool) (done : Bytes) (offset : Nat) : Bytes → Outcome Bytes
  | [] => .short
  | b :: rest =>
    if p b then spanFrom p (b :: done) (offset + 1) rest
    else .found done.reverse ⟨offset, b :: rest⟩

/-- The bytes before the first one that is not of a class. -/
def span (p : UInt8 → Bool) : Scan Bytes := fun c =>
  spanFrom p [] c.offset c.rest

/-- Whether a scan that finds something passes over at least `least` bytes, which are those between
the place where it starts and the place where it ends. -/
def Passes {α : Type} (least : Nat) (scan : Scan α) : Prop :=
  ∀ (c c' : Cursor) (value : α), scan c = .found value c' →
    ∃ passed, c.rest = passed ++ c'.rest ∧ c'.offset = c.offset + passed.length ∧
      least ≤ passed.length

theorem Passes.mono {α : Type} {m n : Nat} {scan : Scan α} (h : scan.Passes n) (hm : m ≤ n) :
    scan.Passes m := by
  intro c c' value hs
  obtain ⟨passed, hr, ho, hl⟩ := h c c' value hs
  exact ⟨passed, hr, ho, Nat.le_trans hm hl⟩

theorem passes_pure {α : Type} (value : α) : (pure value : Scan α).Passes 0 := by
  intro c c' v h
  simp only [pure, Outcome.found.injEq] at h
  exact ⟨[], by simp [h.2], by simp [h.2], by simp⟩

theorem passes_fail {α : Type} (fault : HeadFault) (n : Nat) :
    (fail fault : Scan α).Passes n := by
  intro c c' v h
  simp [fail] at h

theorem Passes.bind {α β : Type} {m n : Nat} {scan : Scan α} {next : α → Scan β}
    (h : scan.Passes m) (hn : ∀ value, (next value).Passes n) : (scan >>= next).Passes (m + n) := by
  intro c c' v hs
  simp only [Bind.bind] at hs
  split at hs
  · rename_i value c₁ h₁
    obtain ⟨p, hp, hpo, hpl⟩ := h c c₁ value h₁
    obtain ⟨q, hq, hqo, hql⟩ := hn value c₁ c' v hs
    refine ⟨p ++ q, ?_, ?_, ?_⟩
    · rw [hp, hq, List.append_assoc]
    · rw [hqo, hpo, List.length_append, Nat.add_assoc]
    · rw [List.length_append]
      exact Nat.add_le_add hpl hql
  · simp at hs
  · simp at hs

theorem passes_octet : octet.Passes 1 := by
  intro c c' v h
  simp only [octet] at h
  split at h
  · simp at h
  · rename_i b rest hc
    simp only [Outcome.found.injEq] at h
    exact ⟨[b], by simp [hc, ← h.2], by simp [← h.2], by simp⟩

theorem passes_expect (p : UInt8 → Bool) (fault : HeadFault) : (expect p fault).Passes 1 := by
  refine passes_octet.bind (n := 0) fun b => ?_
  split
  · exact passes_pure b
  · exact passes_fail fault 0

theorem passes_spanFrom {p : UInt8 → Bool} {done value b : Bytes} {offset : Nat} {c : Cursor}
    (h : spanFrom p done offset b = .found value c) :
    ∃ passed, b = passed ++ c.rest ∧ c.offset = offset + passed.length := by
  induction b generalizing done offset with
  | nil => simp [spanFrom] at h
  | cons a rest ih =>
    simp only [spanFrom] at h
    split at h
    · obtain ⟨passed, hr, ho⟩ := ih h
      exact ⟨a :: passed, by simp [hr], by simp only [ho, List.length_cons]; omega⟩
    · simp only [Outcome.found.injEq] at h
      exact ⟨[], by simp [← h.2], by simp [← h.2]⟩

theorem passes_span (p : UInt8 → Bool) : (span p).Passes 0 := by
  intro c c' v h
  obtain ⟨passed, hr, ho⟩ := passes_spanFrom h
  exact ⟨passed, hr, ho, Nat.zero_le _⟩

end Scan

end Trawl.Content.Http
