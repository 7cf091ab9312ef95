import Trawl.Proofs.Files.Matches

/-!
# Patterns of one step

A pattern without slashes is looked for among the names in the working directory. A name that is
meant as a pattern is one with wildcards (`parse_of_isMeant`), and unless it has brackets it fits
itself (`fitAll_self`).
-/

namespace Trawl.Files

theorem exists_of_map_ok {α β : Type} {f : α → β} {r : Except PatternFault α} {b : β}
    (h : r.map f = .ok b) : ∃ a, r = .ok a ∧ f a = b := by
  cases r with
  | error fault => cases h
  | ok a => exact ⟨a, rfl, Except.ok.inj h⟩

theorem anySuffix_of_self {test : List Char → Bool} {text : List Char} (h : test text = true) :
    anySuffix test text = true := by
  cases text <;> simp [anySuffix, h]

namespace Step

/-- A text without brackets fits itself. -/
theorem fitAll_self {text : List Char} {tokens : List Token} (htokens : tokens? text = .ok tokens)
    (hbracket : '[' ∉ text) : Token.fitAll tokens text = true := by
  fun_induction tokens? text generalizing tokens with
  | case1 =>
    obtain rfl := Except.ok.inj htokens
    rfl
  | case2 rest ih =>
    obtain ⟨more, hmore, rfl⟩ := exists_of_map_ok htokens
    exact ih hmore fun h => hbracket (List.mem_cons_of_mem _ h)
  | case5 rest _ _ ih =>
    obtain ⟨more, hmore, rfl⟩ := exists_of_map_ok htokens
    have hfits := ih hmore fun h => hbracket (List.mem_cons_of_mem _ h)
    rw [Token.fitAll, anySuffix, anySuffix_of_self hfits, Bool.or_true]
  | case7 => exact absurd List.mem_cons_self hbracket
  | case8 c rest _ _ _ _ _ ih =>
    obtain ⟨more, hmore, rfl⟩ := exists_of_map_ok htokens
    have hfits := ih hmore fun h => hbracket (List.mem_cons_of_mem _ h)
    simp [Token.fitAll, Token.fits, hfits]
  | case3 | case4 | case6 => cases htokens

theorem oneOf_of_bracket? {negated : Bool} {text after : List Char} {token : Token}
    (h : bracket? negated text = some (token, after)) :
    ∃ ranges, token = .oneOf negated ranges := by
  unfold bracket? at h
  split at h
  · cases h
  split at h <;> cases h
  exact ⟨_, rfl⟩

theorem oneOf_of_list? {text after : List Char} {token : Token}
    (h : list? text = some (token, after)) : ∃ negated ranges, token = .oneOf negated ranges := by
  unfold list? at h
  split at h <;> exact ⟨_, oneOf_of_bracket? h⟩

theorem mapM_literal?_cons {token : Token} {tokens : List Token} {literal : List Char}
    (h : (token :: tokens).mapM literal? = some literal) :
    (∃ c, token = .char c) ∧ ∃ more, tokens.mapM literal? = some more := by
  rw [List.mapM_cons] at h
  obtain ⟨c, hc, h⟩ := Option.bind_eq_some_iff.mp h
  obtain ⟨more, hmore, -⟩ := Option.bind_eq_some_iff.mp h
  refine ⟨⟨c, ?_⟩, more, hmore⟩
  cases token <;> simp_all [literal?]

/-- Only a text without wildcards is all characters that stand for themselves. -/
theorem not_mem_of_literal {text literal : List Char} {tokens : List Token}
    (htokens : tokens? text = .ok tokens) (hliteral : tokens.mapM literal? = some literal) :
    ∀ c ∈ text, c ∉ ['*', '?', '['] := by
  fun_induction tokens? text generalizing tokens literal with
  | case1 => simp
  | case2 | case5 =>
    obtain ⟨more, -, rfl⟩ := exists_of_map_ok htokens
    obtain ⟨⟨_, ⟨⟩⟩, -⟩ := mapM_literal?_cons hliteral
  | case7 rest token after hlist ih =>
    obtain ⟨more, -, rfl⟩ := exists_of_map_ok htokens
    obtain ⟨negated, ranges, rfl⟩ := oneOf_of_list? hlist
    obtain ⟨⟨_, ⟨⟩⟩, -⟩ := mapM_literal?_cons hliteral
  | case8 c rest hany _ _ hstar hlist ih =>
    obtain ⟨more, hmore, rfl⟩ := exists_of_map_ok htokens
    obtain ⟨-, literal', hliteral'⟩ := mapM_literal?_cons hliteral
    refine List.forall_mem_cons.mpr ⟨?_, ih hmore hliteral'⟩
    simpa using ⟨hstar, hany, hlist⟩
  | case3 | case4 | case6 => cases htokens

/-- A text with wildcards is read as a step with wildcards. -/
theorem parse_of_isMeant {text : Path} (hmeant : Pattern.isMeant text = true)
    (hdepth : text.toList ≠ ['*', '*']) :
    parse text.toList = (tokens? text.toList).map .wild := by
  rw [parse, if_neg hdepth]
  cases htokens : tokens? text.toList with
  | error fault => rfl
  | ok tokens =>
    simp only [bind, Except.bind]
    split
    · rename_i literal hliteral
      obtain ⟨c, hc, hwild⟩ := List.any_eq_true.mp hmeant
      exact absurd (by simpa using hwild) (not_mem_of_literal htokens hliteral c hc)
    · rfl

end Step

/-- A name is a pattern of one step. -/
theorem Pattern.parse_of_isName {n : String} (hn : Path.IsName n) :
    parse n = (Step.parse n.toList).map fun step => ⟨false, [step], false⟩ := by
  have hne := hn.ne_empty
  simp only [parse, hn.isAbsolute, Bool.false_eq_true, if_false, Path.cut_of_not_mem hn.2]
  cases hstep : Step.parse n.toList with
  | error fault => simp [hne, hstep, bind, Except.bind, Except.map]
  | ok step =>
    cases step <;> simp [hne, hstep, bind, Except.bind, Except.map, pure, Except.pure, collapse]

/-- What the two special names lead to is no file. -/
theorem not_isFile_dots (disk : Disk) : ∀ n ∈ ["..", "."], ¬disk.IsFile (Path.here.join n) := by
  have hsteps : ∀ n ∈ ["..", "."], (Path.here.join n).isAbsolute = false ∧
      (Path.here.join n).steps = [".", n] := by decide +kernel
  intro n hn hfile
  have hway : disk.way (Path.here.join n) = (disk.here ++ ["."]) ++ [n] := by
    rw [Disk.way, (hsteps n hn).1, if_neg Bool.false_ne_true, (hsteps n hn).2, List.append_assoc]
    rfl
  have hlength := congrArg List.length (hfile.last_step hway)
  simp only [List.mem_cons, List.not_mem_nil, or_false] at hn
  rcases hn with rfl | rfl <;> simp [Path.onward] at hlength

/-- The matches of one step with wildcards are the files in the working directory whose names fit.
-/
theorem isMatch_wild {disk : Disk} {tokens : List Token} {choice : List (List String)}
    {q : Path} :
    IsMatch disk ⟨false, [.wild tokens], false⟩ choice q ↔ choice = [[q]] ∧
      q ∈ disk.namesIn Path.here ∧ (Step.wild tokens).fits q = true ∧ disk.IsFile q := by
  have hwithin (n : String) : Path.here.within n = n := by
    rw [Path.within, if_pos (by decide +kernel)]
  simp only [IsMatch, Disk.leads_wild, Disk.leads_nil, Bool.false_eq_true, if_false,
    hwithin, true_and]
  constructor
  · rintro ⟨⟨n, ⟨hn, -⟩, _, rfl, rfl, rfl⟩ | ⟨n, ⟨hn, hfits⟩, _, rfl, rfl, rfl⟩, hfile⟩
    · exact absurd hfile (not_isFile_dots disk n hn)
    · exact ⟨rfl, hn, hfits, hfile⟩
  · rintro ⟨rfl, hq, hfits, hfile⟩
    exact ⟨.inr ⟨q, ⟨hq, hfits⟩, [], rfl, rfl, rfl⟩, hfile⟩

end Trawl.Files
