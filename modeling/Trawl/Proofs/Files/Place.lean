import Trawl.Files.FileTree

/-!
# The place of a file

One file has many paths: `a.pcap`, `./a.pcap` and `logs/../a.pcap` lead to the same, and so does the
path from the root. The names from the root that are left when a path has been followed, its dots
taken out, are its place; two paths to one place lead to one file (`find?_of_place`), and the place of
a file ends in the name that its path ends in (`fileName_eq`).
-/

namespace Trawl.Files

theorem Path.cut_ne_nil (text : List Char) : Path.cut text ≠ [] := by
  unfold Path.cut
  repeat' split
  all_goals simp

theorem Path.steps_ne_nil (p : Path) : p.steps ≠ [] := by
  simpa [Path.steps] using Path.cut_ne_nil p.toList

/-- Whether a text can be the name of an entry. Two names are taken, for the directory itself and
the one above it, and a slash ends a name. -/
def Path.IsName (n : String) : Prop :=
  n ∉ ["", ".", ".."] ∧ '/' ∉ n.toList

instance (n : String) : Decidable (Path.IsName n) :=
  inferInstanceAs (Decidable (_ ∧ _))

theorem Path.cut_of_not_mem : ∀ {text : List Char}, '/' ∉ text → Path.cut text = [text]
  | [], _ => rfl
  | c :: rest, h => by
    obtain ⟨hc, hrest⟩ := List.ne_and_not_mem_of_not_mem_cons h
    rw [Path.cut.eq_3 _ _ hc.symm, Path.cut_of_not_mem hrest]

theorem Path.IsName.steps {n : String} (h : Path.IsName n) : Path.steps n = [n] := by
  rw [Path.steps, Path.cut_of_not_mem h.2, List.map_singleton, String.ofList_toList]

/-- Where a step leads from a place. The root has nothing above it. -/
def Path.onward (place : List String) (step : String) : List String :=
  if step = "" ∨ step = "." then place
  else if step = ".." then place.dropLast
  else place ++ [step]

theorem Path.IsName.onward {n : String} (h : Path.IsName n) (place : List String) :
    Path.onward place n = place ++ [n] := by
  have hplain := h.1
  simp only [List.mem_cons, List.not_mem_nil, or_false, not_or] at hplain
  simp [Path.onward, hplain]

theorem Path.foldl_onward : ∀ {names : List String} (place : List String),
    (∀ n ∈ names, Path.IsName n) → names.foldl Path.onward place = place ++ names
  | [], place, _ => (List.append_nil place).symm
  | n :: names, place, h => by
    obtain ⟨hn, hnames⟩ := List.forall_mem_cons.mp h
    rw [List.foldl_cons, hn.onward, Path.foldl_onward _ hnames, List.append_assoc]
    rfl

theorem Path.IsName.isAbsolute {n : String} (h : Path.IsName n) : Path.isAbsolute n = false := by
  rw [Path.isAbsolute, decide_eq_false_iff_not]
  exact fun hslash => h.2 (List.mem_of_head? hslash)

theorem Path.IsName.ne_empty {n : String} (h : Path.IsName n) : n ≠ "" :=
  fun hn => h.1 (by simp [hn])

namespace FileTree

/-- What some names lead to, one entry after the other. -/
def at? : FileTree → List String → Option FileTree
  | tree, [] => some tree
  | .file _, _ :: _ => none
  | .directory entries, n :: place => (entries.lookup n).bind fun child => child.at? place

theorem at?_append : ∀ (place : List String) (tree : FileTree) (more : List String),
    tree.at? (place ++ more) = (tree.at? place).bind (·.at? more)
  | [], _, _ => rfl
  | _ :: _, .file _, _ => rfl
  | n :: place, .directory entries, more => by
    simp only [List.cons_append, at?, Option.bind_assoc]
    exact congrArg _ (funext fun child => at?_append place child more)

theorem at?_singleton (entries : List (String × FileTree)) (n : String) :
    (directory entries).at? [n] = entries.lookup n := by
  simp [at?]

theorem mem_of_lookup {entries : List (String × FileTree)} {n : String} {child : FileTree}
    (h : entries.lookup n = some child) : (n, child) ∈ entries := by
  obtain ⟨before, after, rfl, -⟩ := List.lookup_eq_some_iff.mp h
  simp

/-- What the names of a place lead to from the root, with the directories above it. -/
inductive Stands (root : FileTree) : List String → List FileTree → FileTree → Prop
  | top : Stands root [] [] root
  | down {place : List String} {above : List FileTree} {entries : List (String × FileTree)}
    {n : String} {child : FileTree} :
    Stands root place above (.directory entries) → entries.lookup n = some child →
      Stands root (place ++ [n]) (.directory entries :: above) child

theorem Stands.at? {root t : FileTree} {place : List String} {above : List FileTree}
    (h : Stands root place above t) : root.at? place = some t := by
  induction h with
  | top => rfl
  | down _ hn ih => rw [at?_append, ih, Option.bind_some, at?_singleton, hn]

/-- A step on the way to something leads to what stands at the next place. It stays among directories
or leads to the entry that it names. -/
theorem Stands.follow_cons {root t found : FileTree} {place steps : List String}
    {above : List FileTree} {step : String} (h : Stands root place above t)
    (hfound : follow above t (step :: steps) = some found) :
    ∃ above' t', Stands root (Path.onward place step) above' t' ∧
      follow above' t' steps = some found ∧
      ((∃ entries, t' = .directory entries) ∨ Path.onward place step = place ++ [step]) := by
  match t with
  | .file _ => simp [follow] at hfound
  | .directory entries =>
    simp only [follow] at hfound
    unfold Path.onward
    split at hfound
    · rename_i hstay
      exact ⟨above, _, by rwa [if_pos hstay], hfound, .inl ⟨entries, rfl⟩⟩
    rename_i hstay
    rw [if_neg hstay]
    split at hfound
    · rename_i hup
      rw [if_pos hup]
      cases h with
      | top => exact ⟨[], _, .top, hfound, .inl ⟨entries, rfl⟩⟩
      | @down place above entries' n _ habove _ =>
        exact ⟨above, _, by rwa [List.dropLast_concat], hfound, .inl ⟨entries', rfl⟩⟩
    · rename_i hup
      rw [if_neg hup]
      split at hfound
      · cases hfound
      · rename_i child hchild
        exact ⟨_, child, .down h hchild, hfound, .inr rfl⟩

theorem Stands.follow {root found : FileTree} : ∀ {steps place : List String}
    {above : List FileTree} {t : FileTree}, Stands root place above t →
      follow above t steps = some found →
      ∃ above', Stands root (steps.foldl Path.onward place) above' found
  | [], _, above, _, h, hfound => by
    obtain rfl := Option.some.inj hfound
    exact ⟨above, h⟩
  | _ :: _, _, _, _, h, hfound => by
    obtain ⟨_, _, h', hfound', -⟩ := h.follow_cons hfound
    exact h'.follow hfound'

/-- The last step to a file names it. -/
theorem Stands.last_step {root : FileTree} {content : Bytes} {n : String} :
    ∀ {steps place : List String} {above : List FileTree} {t : FileTree},
      Stands root place above t → FileTree.follow above t (steps ++ [n]) = some (.file content) →
      Path.onward (steps.foldl Path.onward place) n = steps.foldl Path.onward place ++ [n]
  | [], _, _, _, h, hfile => by
    obtain ⟨_, _, -, hfile', ⟨entries, rfl⟩ | hstep⟩ := h.follow_cons hfile
    · simp [FileTree.follow] at hfile'
    · exact hstep
  | _ :: _, _, _, _, h, hfile => by
    obtain ⟨_, _, h', hfile', -⟩ := h.follow_cons hfile
    exact h'.last_step hfile'

/-- Names are followed to what they lead to, and from there on. -/
theorem follow_names : ∀ {names : List String} {tree found : FileTree} (above : List FileTree),
    (∀ n ∈ names, Path.IsName n) → tree.at? names = some found →
      ∃ above', ∀ steps, follow above tree (names ++ steps) = follow above' found steps
  | [], _, _, above, _, hat => by
    obtain rfl := Option.some.inj hat
    exact ⟨above, fun _ => rfl⟩
  | _ :: _, .file _, _, _, _, hat => by cases hat
  | n :: names, .directory entries, _, above, h, hat => by
    obtain ⟨hn, hnames⟩ := List.forall_mem_cons.mp h
    have hplain := hn.1
    simp only [List.mem_cons, List.not_mem_nil, or_false, not_or] at hplain
    obtain ⟨child, hchild, hat⟩ := Option.bind_eq_some_iff.mp hat
    obtain ⟨above', hfollow⟩ := follow_names (.directory entries :: above) hnames hat
    refine ⟨above', fun steps => ?_⟩
    simp [follow, hplain, hchild, hfollow]

end FileTree

namespace Disk

/-- The names that lead from the root to where a path leads. -/
def place (d : Disk) (p : Path) : List String :=
  (d.way p).foldl Path.onward []

/-- Whether a path leads to a file. -/
def IsFile (d : Disk) (p : Path) : Prop :=
  ∃ content, d.find? p = some (.file content)

/-- Whether a path leads to a directory. -/
def IsDirectory (d : Disk) (p : Path) : Prop :=
  ∃ entries, d.find? p = some (.directory entries)

variable {d : Disk} {p q : Path} {found : FileTree}

theorem follow_of_find? (h : d.find? p = some found) :
    d.root.follow [] (d.way p) = some found := by
  unfold find? at h
  split at h
  · cases h
  · exact h

/-- A path leads to what its place says, if it leads anywhere. -/
theorem at?_place (h : d.find? p = some found) : d.root.at? (d.place p) = some found := by
  obtain ⟨above, hstands⟩ := FileTree.Stands.top.follow (follow_of_find? h)
  exact hstands.at?

/-- Two paths to one place lead to one entry. -/
theorem find?_of_place {other : FileTree} (hp : d.find? p = some found)
    (hq : d.find? q = some other) (h : d.place p = d.place q) : d.find? p = d.find? q := by
  rw [hp, hq, ← at?_place hp, ← at?_place hq, h]

theorem IsFile.last_step (h : d.IsFile p) {steps : List String} {n : String}
    (hway : d.way p = steps ++ [n]) :
    Path.onward (steps.foldl Path.onward []) n = steps.foldl Path.onward [] ++ [n] := by
  obtain ⟨content, h⟩ := h
  exact FileTree.Stands.top.last_step (hway ▸ follow_of_find? h)

/-- The place of a file ends in the name that its path ends in. -/
theorem fileName_eq (h : d.IsFile p) : p.fileName = (d.place p).getLast?.getD "" := by
  obtain ⟨before, n, hsteps⟩ : ∃ before n, p.steps = before ++ [n] :=
    ⟨_, _, (List.dropLast_concat_getLast p.steps_ne_nil).symm⟩
  obtain ⟨start, hway⟩ : ∃ start, d.way p = start ++ [n] := by
    unfold way
    split
    · exact ⟨before, hsteps⟩
    · exact ⟨d.here ++ before, by rw [hsteps, List.append_assoc]⟩
  rw [Path.fileName, hsteps, place, hway, List.foldl_append, List.foldl_cons, List.foldl_nil,
    h.last_step hway, List.getLast?_concat, List.getLast?_concat]

end Disk

end Trawl.Files
