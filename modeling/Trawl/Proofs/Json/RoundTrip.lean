import Trawl.Proofs.Json.Quoted

/-!
# What is written is read back

A text of a value is the tokens of that value in order, with any blanks between them. Both layouts
are texts of the value that they lay out (`isText_compactChars`, `isText_prettyChars`), and a reader
of values takes every text of a value for that value (`IsText.takes`).
-/

namespace Trawl.Json

open Reader

/-! ### Texts of a value -/

/-- What stands before an item: blanks, with a comma among them unless it is the first item. -/
inductive Lead : (first : Bool) → List Char → Prop
  | first {w : List Char} : Blank w → Lead true w
  | next {v w : List Char} : Blank v → Blank w → Lead false (v ++ ',' :: w)

mutual

/-- The texts of a value. -/
inductive IsText : Json → List Char → Prop
  | null : IsText .null (word .null)
  | bool (b : Bool) : IsText (.bool b) (word (.bool b))
  | number (n : Nat) : IsText (.number n) (digits n)
  | text (s : String) : IsText (.text s) (quoted s)
  | list {items : List Json} {t : List Char} :
    IsItems true items t → IsText (.list items) ('[' :: t)
  | object {fields : List (String × Json)} {t : List Char} :
    IsFields true fields t → IsText (.object fields) ('\x7b' :: t)

/-- The texts of a list from some of its items on, whether or not they are all. -/
inductive IsItems : (first : Bool) → List Json → List Char → Prop
  | done {first : Bool} {w : List Char} : Blank w → IsItems first [] (w ++ [']'])
  | item {first : Bool} {l t u : List Char} {j : Json} {more : List Json} :
    Lead first l → IsText j t → IsItems false more u → IsItems first (j :: more) (l ++ (t ++ u))

/-- The texts of an object from some of its fields on, whether or not they are all. -/
inductive IsFields : (first : Bool) → List (String × Json) → List Char → Prop
  | done {first : Bool} {w : List Char} : Blank w → IsFields first [] (w ++ ['\x7d'])
  | field {first : Bool} {l v w t u : List Char} (name : String) {j : Json}
    {more : List (String × Json)} :
    Lead first l → Blank v → Blank w → IsText j t → IsFields false more u →
      IsFields first ((name, j) :: more) (l ++ (quoted name ++ (v ++ ':' :: (w ++ (t ++ u)))))

end

/-! ### Reading a text -/

/-- What starts with a blank or with a mark that is neither digit, point nor exponent does not
continue a number. -/
theorem endsNumber_blank_append {w : List Char} {x : UInt8} (hw : Blank w)
    (hx : x ∈ [0x2C, 0x5D, 0x7D]) (rest : Bytes) : EndsNumber (Bytes.ofChars w ++ x :: rest) := by
  cases w with
  | nil =>
    rintro y ⟨rfl⟩
    simp only [List.mem_cons, List.not_mem_nil, or_false] at hx
    rcases hx with rfl | rfl | rfl <;> decide
  | cons c w =>
    have hc := hw c List.mem_cons_self
    simp only [List.mem_cons, List.not_mem_nil, or_false] at hc
    rintro y hy
    rcases hc with rfl | rfl | rfl | rfl <;> obtain rfl := Option.some.inj hy <;> decide

theorem Lead.append {first : Bool} {l w : List Char} (hl : Lead first l) (hw : Blank w) :
    Lead first (l ++ w) := by
  cases hl with
  | first hl => exact .first (hl.append hw)
  | next hv hl =>
    rw [List.append_assoc, List.cons_append]
    exact .next hv (hl.append hw)

theorem IsItems.endsNumber {items : List Json} {t : List Char} (h : IsItems false items t)
    (rest : Bytes) : EndsNumber (Bytes.ofChars t ++ rest) := by
  cases h with
  | done hw =>
    rw [Bytes.ofChars_append, List.append_assoc]
    exact endsNumber_blank_append hw (by decide) _
  | item hl _ _ =>
    cases hl with
    | next hv _ =>
      rw [List.append_assoc, Bytes.ofChars_append, List.append_assoc]
      exact endsNumber_blank_append hv (by decide) _

theorem IsFields.endsNumber {fields : List (String × Json)} {t : List Char}
    (h : IsFields false fields t) (rest : Bytes) : EndsNumber (Bytes.ofChars t ++ rest) := by
  cases h with
  | done hw =>
    rw [Bytes.ofChars_append, List.append_assoc]
    exact endsNumber_blank_append hw (by decide) _
  | field _ hl _ _ _ _ =>
    cases hl with
    | next hv _ =>
      rw [List.append_assoc, Bytes.ofChars_append, List.append_assoc]
      exact endsNumber_blank_append hv (by decide) _

theorem isBlank_of_isDigit {x : UInt8} (h : isDigit x = true) : isBlank x = false := by
  refine Bool.eq_false_iff.mpr fun hblank => ?_
  simp only [isBlank, List.contains_iff_mem, List.mem_cons, List.not_mem_nil, or_false] at hblank
  rcases hblank with rfl | rfl | rfl | rfl <;> simp [isDigit] at h

/-- The first byte of a text of a value is no blank and no closing bracket. -/
theorem IsText.exists_cons {j : Json} {t : List Char} (h : IsText j t) :
    ∃ x tail, Bytes.ofChars t = x :: tail ∧ isBlank x = false ∧ x ≠ 0x5D := by
  cases h with
  | null => exact ⟨0x6E, _, rfl, by decide, by decide⟩
  | bool b =>
    cases b
    · exact ⟨0x66, _, rfl, by decide, by decide⟩
    · exact ⟨0x74, _, rfl, by decide, by decide⟩
  | number n =>
    obtain ⟨x, tail, hform, hx⟩ := exists_cons_digits n
    exact ⟨x, tail, hform, isBlank_of_isDigit hx, fun h => by simp [h, isDigit] at hx⟩
  | text s => exact ⟨0x22, _, rfl, by decide, by decide⟩
  | list _ => exact ⟨0x5B, _, rfl, by decide, by decide⟩
  | object _ => exact ⟨0x7B, _, rfl, by decide, by decide⟩

theorem takes_itemStep_done {value : Reader Json} {first : Bool} {done : List Json} {w : List Char}
    (hw : Blank w) (rest : Bytes) :
    Takes (itemStep value first done) (Bytes.ofChars (w ++ [']']) ++ rest) (.inr done.reverse)
      rest := by
  rw [Bytes.ofChars_append, List.append_assoc]
  exact (takes_peekValue (x := 0x5D) hw (by decide)).bind (takes_skip.bind (takes_pure _ _))

theorem takes_itemStep {value : Reader Json} {first : Bool} {done : List Json} {l : List Char}
    {b rest : Bytes} {x : UInt8} {j : Json} (hl : Lead first l) (hx : isBlank x = false)
    (hclose : x ≠ 0x5D)
    (hvalue : ∀ {w : List Char}, Blank w → Takes value (Bytes.ofChars w ++ x :: b) j rest) :
    Takes (itemStep value first done) (Bytes.ofChars l ++ x :: b) (.inl (false, j :: done))
      rest := by
  cases hl with
  | first hw =>
    refine (takes_peekValue hw hx).bind ?_
    rw [if_neg hclose]
    exact (takes_pure () _).bind ((hvalue blank_nil).bind (takes_pure _ _))
  | next hv hw =>
    rw [Bytes.ofChars_append, List.append_assoc]
    refine (takes_peekValue (x := 0x2C) hv (by decide)).bind ?_
    rw [if_neg (by decide)]
    exact (takes_expectToken blank_nil (by decide)).bind ((hvalue hw).bind (takes_pure _ _))

theorem takes_fieldStep_done {value : Reader Json} {first : Bool} {done : List (String × Json)}
    {w : List Char} (hw : Blank w) (rest : Bytes) :
    Takes (fieldStep value first done) (Bytes.ofChars (w ++ ['\x7d']) ++ rest) (.inr done.reverse)
      rest := by
  rw [Bytes.ofChars_append, List.append_assoc]
  have hname : Takes (nextName first) (Bytes.ofChars w ++ (Bytes.ofChars ['\x7d'] ++ rest)) none
      rest :=
    (takes_peekValue (x := 0x7D) hw (by decide)).bind (takes_skip.bind (takes_pure _ _))
  exact hname.bind (takes_pure _ _)

theorem ofChars_quoted (s : String) (b : Bytes) :
    Bytes.ofChars (quoted s) ++ b =
      0x22 :: (Bytes.ofChars (s.toList.flatMap escape) ++ 0x22 :: b) := by
  rw [quoted, Bytes.ofChars_cons, Bytes.ofChars_append]
  simp only [List.append_assoc]
  rfl

theorem takes_nextName {first : Bool} {l : List Char} (hl : Lead first l) (name : String)
    (rest : Bytes) :
    Takes (nextName first) (Bytes.ofChars l ++ (Bytes.ofChars (quoted name) ++ rest))
      (some (Bytes.ofText name)) rest := by
  rw [ofChars_quoted]
  have hstring {w : List Char} (hw : Blank w) :
      Takes (do expectToken 0x22; return some (← string))
        (Bytes.ofChars w ++ 0x22 :: (Bytes.ofChars (name.toList.flatMap escape) ++ 0x22 :: rest))
        (some (Bytes.ofText name)) rest :=
    (takes_expectToken hw (by decide)).bind (takes_string name rest).map
  cases hl with
  | first hw =>
    refine (takes_peekValue (x := 0x22) hw (by decide)).bind ?_
    rw [if_neg (by decide)]
    exact hstring blank_nil
  | next hv hw =>
    rw [Bytes.ofChars_append, List.append_assoc]
    refine (takes_peekValue (x := 0x2C) hv (by decide)).bind ?_
    rw [if_neg (by decide)]
    exact (takes_expectToken (x := 0x2C) blank_nil (by decide)).bind (hstring hw)

theorem takes_asText (s : String) (b : Bytes) : Takes (asText (Bytes.ofText s)) b s b := by
  rw [asText, Bytes.toText?_ofText]
  exact takes_pure _ _

theorem takes_fieldStep {value : Reader Json} {first : Bool} {done : List (String × Json)}
    {l v w : List Char} {b rest : Bytes} {name : String} {j : Json} (hl : Lead first l)
    (hv : Blank v) (hvalue : Takes value (Bytes.ofChars w ++ b) j rest) :
    Takes (fieldStep value first done)
      (Bytes.ofChars l ++ (Bytes.ofChars (quoted name) ++
        (Bytes.ofChars v ++ (0x3A :: (Bytes.ofChars w ++ b)))))
      (.inl (false, (name, j) :: done)) rest := by
  refine (takes_nextName hl name _).bind ?_
  exact (takes_asText name _).bind
    ((takes_expectToken hv (by decide)).bind (hvalue.bind (takes_pure _ _)))

theorem takes_valueWithin_number {n depth : Nat} {rest : Bytes} (hrest : EndsNumber rest) :
    Takes (valueWithin (depth + 1)) (Bytes.ofChars (digits n) ++ rest) (.number n) rest := by
  have hcount := takes_count (n := n) hrest
  obtain ⟨x, p, hform, hx⟩ := exists_cons_digits n
  have hquote : x ≠ 0x22 := fun h => by simp [h, isDigit] at hx
  rw [hform, List.cons_append] at hcount ⊢
  refine (takes_peekValue blank_nil (isBlank_of_isDigit hx)).bind ?_
  rw [if_neg hquote, if_pos hx]
  exact hcount.map

theorem takes_valueWithin_text (s : String) (depth : Nat) (rest : Bytes) :
    Takes (valueWithin (depth + 1)) (Bytes.ofChars (quoted s) ++ rest) (.text s) rest := by
  rw [ofChars_quoted]
  exact (takes_peekValue (x := 0x22) blank_nil (by decide)).bind
    (takes_skip.bind ((takes_string s rest).bind (takes_asText s rest).map))

theorem takes_valueWithin_blank {depth : Nat} {w : List Char} {b rest : Bytes} {j : Json}
    (h : Takes (valueWithin depth) b j rest) (hw : Blank w) :
    Takes (valueWithin depth) (Bytes.ofChars w ++ b) j rest := by
  cases depth with
  | zero => cases h
  | succ depth => exact h.blank_append hw

-- A list or an object leaves fewer bytes to what is in it, so a depth that the bytes stay below is
-- still enough there when it is one less.
mutual

/-- Every text of a value is taken for that value, unless it is a number that what follows it
continues. -/
theorem IsText.takes : ∀ {j : Json} {t : List Char}, IsText j t → ∀ (depth : Nat) (rest : Bytes),
    (Bytes.ofChars t ++ rest).length < depth → EndsNumber rest →
    Takes (valueWithin depth) (Bytes.ofChars t ++ rest) j rest
  | _, _, _, 0, _, hdepth, _ => absurd hdepth (Nat.not_lt_zero _)
  | _, _, .null, _ + 1, rest, _, _ =>
    (takes_peekValue (x := 0x6E) blank_nil (by decide)).bind
      ((takes_word "null" rest).bind (takes_pure _ _))
  | _, _, .bool true, _ + 1, rest, _, _ =>
    (takes_peekValue (x := 0x74) blank_nil (by decide)).bind
      ((takes_word "true" rest).bind (takes_pure _ _))
  | _, _, .bool false, _ + 1, rest, _, _ =>
    (takes_peekValue (x := 0x66) blank_nil (by decide)).bind
      ((takes_word "false" rest).bind (takes_pure _ _))
  | _, _, .number _, _ + 1, _, _, hrest => takes_valueWithin_number hrest
  | _, _, .text s, depth + 1, rest, _, _ => takes_valueWithin_text s depth rest
  | _, _, .list h, depth + 1, rest, hdepth, _ =>
    (takes_peekValue (x := 0x5B) blank_nil (by decide)).bind
      (takes_skip.bind (h.runs depth [] rest (Nat.lt_of_succ_lt_succ hdepth)).takes.map)
  | _, _, .object h, depth + 1, rest, hdepth, _ =>
    (takes_peekValue (x := 0x7B) blank_nil (by decide)).bind
      (takes_skip.bind (h.runs depth [] rest (Nat.lt_of_succ_lt_succ hdepth)).takes.map)

theorem IsItems.runs : ∀ {first : Bool} {items : List Json} {t : List Char}, IsItems first items t →
    ∀ (depth : Nat) (done : List Json) (rest : Bytes), (Bytes.ofChars t ++ rest).length < depth →
    Runs (fun (first, done) => itemStep (valueWithin depth) first done) (first, done)
      (Bytes.ofChars t ++ rest) (done.reverse ++ items) rest
  | _, _, _, .done hw, _, done, rest, _ => by
    rw [List.append_nil]
    exact .done (takes_itemStep_done hw rest)
  | _, _, _, .item (u := u) (j := j) hl h hmore, depth, done, rest, hdepth => by
    obtain ⟨x, tail, hform, hx, hclose⟩ := h.exists_cons
    rw [Bytes.ofChars_append, Bytes.ofChars_append, List.append_assoc, List.append_assoc]
      at hdepth ⊢
    simp only [List.length_append] at hdepth
    have hvalue := h.takes depth (Bytes.ofChars u ++ rest)
      (by simp only [List.length_append]; omega) (hmore.endsNumber rest)
    have hrun := hmore.runs depth (j :: done) rest
      (by simp only [List.length_append]; omega)
    rw [List.reverse_cons, List.append_assoc, List.singleton_append] at hrun
    rw [hform, List.cons_append] at hvalue ⊢
    exact .next (takes_itemStep hl hx hclose fun hw => takes_valueWithin_blank hvalue hw)
      (by simp only [List.length_append, List.length_cons]; omega) hrun

theorem IsFields.runs : ∀ {first : Bool} {fields : List (String × Json)} {t : List Char},
    IsFields first fields t → ∀ (depth : Nat) (done : List (String × Json)) (rest : Bytes),
    (Bytes.ofChars t ++ rest).length < depth →
    Runs (fun (first, done) => fieldStep (valueWithin depth) first done) (first, done)
      (Bytes.ofChars t ++ rest) (done.reverse ++ fields) rest
  | _, _, _, .done hw, _, done, rest, _ => by
    rw [List.append_nil]
    exact .done (takes_fieldStep_done hw rest)
  | _, _, _, .field (l := l) (v := v) (w := w) (t := t) (u := u) (j := j) name hl hv hw h hmore,
      depth, done, rest, hdepth => by
    have hform : Bytes.ofChars (l ++ (quoted name ++ (v ++ ':' :: (w ++ (t ++ u))))) ++ rest =
        Bytes.ofChars l ++ (Bytes.ofChars (quoted name) ++ (Bytes.ofChars v ++
          (0x3A :: (Bytes.ofChars w ++ (Bytes.ofChars t ++ (Bytes.ofChars u ++ rest)))))) := by
      simp only [Bytes.ofChars_append, Bytes.ofChars_cons, List.append_assoc]
      rfl
    rw [hform] at hdepth ⊢
    simp only [List.length_append, List.length_cons] at hdepth
    have hvalue := h.takes depth (Bytes.ofChars u ++ rest)
      (by simp only [List.length_append]; omega) (hmore.endsNumber rest)
    have hrun := hmore.runs depth ((name, j) :: done) rest
      (by simp only [List.length_append]; omega)
    rw [List.reverse_cons, List.append_assoc, List.singleton_append] at hrun
    exact .next (takes_fieldStep hl hv (takes_valueWithin_blank hvalue hw))
      (by simp only [List.length_append, List.length_cons]; omega) hrun

end

/-! ### The two layouts -/

theorem lead_comma : Lead false [','] :=
  .next (v := []) blank_nil blank_nil

mutual

theorem isText_compactChars : ∀ j : Json, IsText j (compactChars j)
  | .null => .null
  | .bool b => .bool b
  | .number n => .number n
  | .text s => .text s
  | .list [] => .list (.done (w := []) blank_nil)
  | .list (j :: more) => .list (isItems_compactItems (j :: more) (by simp) (.first blank_nil))
  | .object [] => .object (.done (w := []) blank_nil)
  | .object (f :: more) =>
    .object (isFields_compactFields (f :: more) (by simp) (.first blank_nil))

theorem isItems_compactItems : ∀ (items : List Json), items ≠ [] → ∀ {first : Bool} {l : List Char},
    Lead first l → IsItems first items (l ++ (compactItems items ++ [']']))
  | [], h, _, _, _ => absurd rfl h
  | [j], _, _, _, hl => .item hl (isText_compactChars j) (.done (w := []) blank_nil)
  | j :: k :: more, _, _, l, hl => by
    have hmore := isItems_compactItems (k :: more) (by simp) lead_comma
    have h := IsItems.item hl (isText_compactChars j) hmore
    simpa [compactItems] using h

theorem isFields_compactFields : ∀ (fields : List (String × Json)), fields ≠ [] →
    ∀ {first : Bool} {l : List Char}, Lead first l →
    IsFields first fields (l ++ (compactFields fields ++ ['\x7d']))
  | [], h, _, _, _ => absurd rfl h
  | [(name, j)], _, _, _, hl => by
    have h := IsFields.field name hl blank_nil blank_nil (isText_compactChars j)
      (.done (w := []) blank_nil)
    simpa [compactFields] using h
  | (name, j) :: f :: more, _, _, _, hl => by
    have hmore := isFields_compactFields (f :: more) (by simp) lead_comma
    have h := IsFields.field name hl blank_nil blank_nil (isText_compactChars j) hmore
    simpa [compactFields] using h

end

theorem blank_newline (level : Nat) : Blank (newline level) := by
  intro c hc
  simp only [newline, List.mem_cons, List.mem_replicate] at hc
  rcases hc with rfl | ⟨-, rfl⟩ <;> simp

theorem blank_space : Blank [' '] := by
  simp [Blank]

mutual

theorem isText_prettyChars : ∀ (level : Nat) (j : Json), IsText j (prettyChars level j)
  | _, .null => .null
  | _, .bool b => .bool b
  | _, .number n => .number n
  | _, .text s => .text s
  | _, .list [] => .list (.done (w := []) blank_nil)
  | level, .list (j :: more) => by
    have h := isItems_prettyItems (level + 1) (blank_newline level) (j :: more) (by simp)
      (.first blank_nil)
    simpa [prettyChars] using IsText.list h
  | _, .object [] => .object (.done (w := []) blank_nil)
  | level, .object (f :: more) => by
    have h := isFields_prettyFields (level + 1) (blank_newline level) (f :: more) (by simp)
      (.first blank_nil)
    simpa [prettyChars] using IsText.object h

theorem isItems_prettyItems (level : Nat) {w : List Char} (hw : Blank w) :
    ∀ (items : List Json), items ≠ [] → ∀ {first : Bool} {l : List Char},
    Lead first l → IsItems first items (l ++ (prettyItems level items ++ (w ++ [']'])))
  | [], h, _, _, _ => absurd rfl h
  | [j], _, _, _, hl => by
    have h := IsItems.item (hl.append (blank_newline level)) (isText_prettyChars level j) (.done hw)
    simpa [prettyItems] using h
  | j :: k :: more, _, _, _, hl => by
    have hmore := isItems_prettyItems level hw (k :: more) (by simp) lead_comma
    have h := IsItems.item (hl.append (blank_newline level)) (isText_prettyChars level j) hmore
    simpa [prettyItems] using h

theorem isFields_prettyFields (level : Nat) {w : List Char} (hw : Blank w) :
    ∀ (fields : List (String × Json)), fields ≠ [] → ∀ {first : Bool} {l : List Char},
    Lead first l → IsFields first fields (l ++ (prettyFields level fields ++ (w ++ ['\x7d'])))
  | [], h, _, _, _ => absurd rfl h
  | [(name, j)], _, _, _, hl => by
    have h := IsFields.field name (hl.append (blank_newline level)) blank_nil blank_space
      (isText_prettyChars level j) (.done hw)
    simpa [prettyFields] using h
  | (name, j) :: f :: more, _, _, _, hl => by
    have hmore := isFields_prettyFields level hw (f :: more) (by simp) lead_comma
    have h := IsFields.field name (hl.append (blank_newline level)) blank_nil blank_space
      (isText_prettyChars level j) hmore
    simpa [prettyFields] using h

end

/-! ### Whole texts -/

/-- The value that a text is a text of. -/
def parse (text : String) : Except ReadFault Json :=
  readAll value text

theorem IsText.parse_eq {j : Json} {t : List Char} (h : IsText j t) :
    parse (String.ofList t) = .ok j := by
  have hvalue : Takes value (Bytes.ofText (String.ofList t)) j [] := by
    rw [Bytes.ofText_ofList]
    have htakes := h.takes ((Bytes.ofChars t).length + 1) []
      (by simp) (by simp [EndsNumber])
    rw [List.append_nil] at htakes
    exact takes_get.bind htakes
  have hend : Takes peekToken [] none [] := takes_peekToken (w := []) blank_nil []
  unfold Takes at hvalue hend
  simp only [parse, readAll, hvalue, hend, bind, Except.bind]
  rfl

theorem parse_compact (j : Json) : parse j.compact = .ok j :=
  (isText_compactChars j).parse_eq

theorem parse_pretty (j : Json) : parse j.pretty = .ok j :=
  (isText_prettyChars 0 j).parse_eq

/-! ### A compact text is a single line -/

theorem le_toNat_digitChar : ∀ n < 16, 0x20 ≤ (Nat.digitChar n).toNat := by
  decide

theorem le_of_mem_escape {c d : Char} (h : d ∈ escape c) : 0x20 ≤ d.toNat := by
  have hdigit (n : Nat) : 0x20 ≤ (hexDigit n).toNat :=
    le_toNat_digitChar _ (Nat.mod_lt n (by decide))
  unfold escape at h
  repeat' split at h
  all_goals simp only [List.mem_cons, List.not_mem_nil, or_false] at h
  -- All that is left after the two-letter escapes are the character itself and its number.
  any_goals rcases h with rfl | rfl <;> decide
  · rwa [h]
  · rcases h with rfl | rfl | rfl | rfl | rfl | rfl
    any_goals decide
    · exact hdigit _
    · exact hdigit _

theorem le_of_mem_quoted {s : String} {c : Char} (h : c ∈ quoted s) : 0x20 ≤ c.toNat := by
  simp only [quoted, List.mem_cons, List.mem_append, List.mem_flatMap, List.not_mem_nil,
    or_false] at h
  rcases h with rfl | ⟨d, -, hd⟩ | rfl
  · decide
  · exact le_of_mem_escape hd
  · decide

mutual

theorem le_of_mem_compactChars : ∀ (j : Json) {c : Char}, c ∈ compactChars j → 0x20 ≤ c.toNat
  | .null, c, h => by
    simp only [compactChars, word, List.mem_cons, List.not_mem_nil, or_false] at h
    rcases h with rfl | rfl | rfl | rfl <;> decide
  | .bool true, c, h => by
    simp only [compactChars, word, List.mem_cons, List.not_mem_nil, or_false] at h
    rcases h with rfl | rfl | rfl | rfl <;> decide
  | .bool false, c, h => by
    simp only [compactChars, word, List.mem_cons, List.not_mem_nil, or_false] at h
    rcases h with rfl | rfl | rfl | rfl | rfl <;> decide
  | .number n, c, h => by
    have := (toNat_bounds (n := n) h).1
    omega
  | .text s, c, h => le_of_mem_quoted (s := s) h
  | .list items, c, h => by
    simp only [compactChars, List.mem_cons, List.mem_append, List.not_mem_nil, or_false] at h
    rcases h with rfl | h | rfl
    · decide
    · exact le_of_mem_compactItems items h
    · decide
  | .object fields, c, h => by
    simp only [compactChars, List.mem_cons, List.mem_append, List.not_mem_nil, or_false] at h
    rcases h with rfl | h | rfl
    · decide
    · exact le_of_mem_compactFields fields h
    · decide

theorem le_of_mem_compactItems : ∀ (items : List Json) {c : Char}, c ∈ compactItems items →
    0x20 ≤ c.toNat
  | [], c, h => by simp [compactItems] at h
  | [j], c, h => le_of_mem_compactChars j h
  | j :: k :: more, c, h => by
    rw [compactItems, List.mem_append, List.mem_cons] at h
    · rcases h with h | rfl | h
      · exact le_of_mem_compactChars j h
      · decide
      · exact le_of_mem_compactItems (k :: more) h
    · simp

theorem le_of_mem_compactFields : ∀ (fields : List (String × Json)) {c : Char},
    c ∈ compactFields fields → 0x20 ≤ c.toNat
  | [], c, h => by simp [compactFields] at h
  | [(name, j)], c, h => by
    rw [compactFields, List.mem_append, List.mem_cons] at h
    rcases h with h | rfl | h
    · exact le_of_mem_quoted h
    · decide
    · exact le_of_mem_compactChars j h
  | (name, j) :: f :: more, c, h => by
    rw [compactFields, List.mem_append, List.mem_cons, List.mem_append, List.mem_cons] at h
    · rcases h with h | rfl | h | rfl | h
      · exact le_of_mem_quoted h
      · decide
      · exact le_of_mem_compactChars j h
      · decide
      · exact le_of_mem_compactFields (f :: more) h
    · simp

end

/-- No octet of a compact text is that of a control character below U+0020, so none ends a line. -/
theorem le_of_mem_ofText_compact (j : Json) : ∀ b ∈ Bytes.ofText j.compact, 0x20 ≤ b := by
  rw [compact, Bytes.ofText_ofList]
  exact Bytes.le_of_mem_ofChars (by decide) fun c hc => le_of_mem_compactChars j hc

end Trawl.Json
