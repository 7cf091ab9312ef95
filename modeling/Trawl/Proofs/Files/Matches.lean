import Mathlib.Data.List.Nodup
import Trawl.Files.Expansion
import Trawl.Proofs.Files.Place

/-!
# What fits a pattern

A match of a pattern on a disk says what each step of the pattern stands for, and where
that leads. Two matches can lead to one path: in `**/a/**/b` the first two steps can stand for the
first `a` or for the second of the path `a/a/b`. The expansion of a pattern lists the ends of all
matches, each match once (`finds_pathsFrom`).
-/

namespace Trawl.Files

namespace Disk

variable (disk : Disk)

/-- The names in the directory that a path leads to, none if it leads to something else. -/
def namesIn (p : Path) : List String :=
  match disk.find? p with
  | some (.directory entries) => entries.map (·.1)
  | _ => []

/-- Whether a name without wildcards can be followed from a directory on. -/
def LeadsOn (p : Path) (name : String) : Prop :=
  if name = "." ∨ name = ".." then disk.IsDirectory p else (disk.find? (p.within name)).isSome

/-- Some names lead down from a directory, each to an entry of the one before. -/
inductive Descends : Path → List String → Path → Prop
  | stay {p : Path} : Descends p [] p
  | down {p q : Path} {name : String} {names : List String} :
    name ∈ disk.namesIn p → Descends (p.within name) names q → Descends p (name :: names) q

/-- Steps lead from a directory to a path if they stand for what is chosen: a single name each, and
for `**` any names that lead down. What follows `**` and what has wildcards stands for an entry; a
step that starts with a dot can also stand for the directory itself or the one above. A pattern that
ends in `**` leads to directories. -/
inductive Leads : List Step → Path → (choice : List (List String)) → Path → Prop
  | done {p : Path} : Leads [] p [] p
  | name {n : String} {steps : List Step} {p q : Path} {choice : List (List String)} :
    disk.LeadsOn p n → Leads steps (p.within n) choice q →
      Leads (.name n :: steps) p ([n] :: choice) q
  | entry {tokens : List Token} {n : String} {steps : List Step} {p q : Path}
    {choice : List (List String)} :
    n ∈ disk.namesIn p → (Step.wild tokens).fits n = true → Leads steps (p.within n) choice q →
      Leads (.wild tokens :: steps) p ([n] :: choice) q
  | dots {tokens : List Token} {n : String} {steps : List Step} {p q : Path}
    {choice : List (List String)} :
    n ∈ ["..", "."] → disk.IsDirectory p → (Step.wild tokens).startsWithDot = true →
      (Step.wild tokens).fits n = true → Leads steps (p.join n) choice q →
      Leads (.wild tokens :: steps) p ([n] :: choice) q
  | lastDepth {n : String} {names : List String} {p d : Path} :
    disk.Descends p names d → names.length < depthLimit → n ∈ disk.namesIn d →
      disk.IsDirectory (d.within n) → Leads [.anyDepth] p [names, [n]] (d.within n)
  | anyDepth {n : String} {names : List String} {step : Step} {steps : List Step} {p d q : Path}
    {choice : List (List String)} :
    disk.Descends p names d → names.length < depthLimit → n ∈ disk.namesIn d →
      step.fits n = true → Leads steps (d.within n) choice q →
      Leads (.anyDepth :: step :: steps) p (names :: [n] :: choice) q

end Disk

/-- In every directory each entry has a name, and none has the name of another. -/
inductive FileTree.Proper : FileTree → Prop
  | file (content : Bytes) : Proper (.file content)
  | directory {entries : List (String × FileTree)} : (entries.map (·.1)).Nodup →
    (∀ e ∈ entries, Path.IsName e.1) → (∀ e ∈ entries, Proper e.2) → Proper (.directory entries)

/-- The tree is proper, and the working directory is one of its directories. -/
structure Disk.Proper (disk : Disk) : Prop where
  root : disk.root.Proper
  here : ∃ entries, disk.root.at? disk.here = some (.directory entries)

/-! ### Searches -/

/-- A search gives a result, and no fault. -/
def Gives {α : Type} (r : ExceptT FileFault Id α) (a : α) : Prop :=
  r.run = Except.ok a

section

variable {α β : Type}

theorem gives_pure (a : α) : Gives (pure a) a := rfl

theorem gives_lift (a : Id α) : Gives (liftM a : ExceptT FileFault Id α) a.run := rfl

theorem Gives.iff {r : ExceptT FileFault Id α} {a b : α} (h : Gives r a) : Gives r b ↔ a = b :=
  ⟨fun h' => Except.ok.inj (h.symm.trans h'), fun h' => h' ▸ h⟩

theorem Gives.bind {r : ExceptT FileFault Id α} {f : α → ExceptT FileFault Id β} {a : α} {b : β}
    (h : Gives r a) (hf : Gives (f a) b) : Gives (r >>= f) b := by
  unfold Gives at *
  rw [ExceptT.run_bind, h]
  exact hf

end

/-- A search finds the ends of all matches that there are, each match once. -/
def Finds (r : ExceptT FileFault Id (List Path)) (isMatch : List (List String) → Path → Prop) :
    Prop :=
  ∃ found : List (List (List String) × Path), Gives r (found.map Prod.snd) ∧ found.Nodup ∧
    ∀ choice q, (choice, q) ∈ found ↔ isMatch choice q

section

variable {r s : ExceptT FileFault Id (List Path)} {R S : List (List String) → Path → Prop}

theorem Finds.congr (h : Finds r R) (hRS : ∀ choice q, R choice q ↔ S choice q) : Finds r S := by
  obtain ⟨found, hgives, hnodup, hmem⟩ := h
  exact ⟨found, hgives, hnodup, fun choice q => (hmem choice q).trans (hRS choice q)⟩

theorem finds_nothing (h : ∀ choice q, ¬R choice q) : Finds (pure []) R :=
  ⟨[], gives_pure _, List.nodup_nil, fun choice q => by simpa using h choice q⟩

theorem finds_one (choice : List (List String)) (q : Path) :
    Finds (pure [q]) fun choice' q' => choice' = choice ∧ q' = q :=
  ⟨[(choice, q)], gives_pure _, List.nodup_singleton _, fun choice' q' => by simp⟩

theorem Finds.append (hr : Finds r R) (hs : Finds s S)
    (hdisjoint : ∀ choice q, R choice q → ¬S choice q) :
    Finds (do return (← r) ++ (← s)) fun choice q => R choice q ∨ S choice q := by
  obtain ⟨found, hgives, hnodup, hmem⟩ := hr
  obtain ⟨found', hgives', hnodup', hmem'⟩ := hs
  refine ⟨found ++ found', ?_, ?_, fun choice q => ?_⟩
  · rw [List.map_append]
    exact hgives.bind (hgives'.bind (gives_pure _))
  · refine List.nodup_append.mpr ⟨hnodup, hnodup', ?_⟩
    rintro ⟨choice, q⟩ hx ⟨choice', q'⟩ hy hxy
    obtain ⟨rfl, rfl⟩ := Prod.mk.inj hxy
    exact hdisjoint choice q ((hmem choice q).mp hx) ((hmem' choice q).mp hy)
  · rw [List.mem_append, hmem, hmem']

/-- What is chosen for a search stands behind what was chosen before it. -/
theorem Finds.behind (h : Finds r R) {f : List (List String) → List (List String)}
    (hf : ∀ a b, f a = f b → a = b) :
    Finds r fun choice q => ∃ more, choice = f more ∧ R more q := by
  obtain ⟨found, hgives, hnodup, hmem⟩ := h
  refine ⟨found.map fun x => (f x.1, x.2), ?_, ?_, fun choice q => ?_⟩
  · simpa [Function.comp_def] using hgives
  · refine hnodup.map fun x y hxy => ?_
    obtain ⟨hchoice, hq⟩ := Prod.mk.inj hxy
    exact Prod.ext (hf _ _ hchoice) hq
  · simp only [List.mem_map, Prod.mk.injEq, Prod.exists]
    constructor
    · rintro ⟨more, q', hx, rfl, rfl⟩
      exact ⟨more, rfl, (hmem more q').mp hx⟩
    · rintro ⟨more, rfl, hR⟩
      exact ⟨more, q, (hmem more q).mpr hR, rfl, rfl⟩

theorem Finds.cons (h : Finds r R) (names : List String) :
    Finds r fun choice q => ∃ more, choice = names :: more ∧ R more q :=
  h.behind fun _ _ heq => (List.cons.inj heq).2

theorem Finds.guard {c : Prop} [Decidable c] (h : c → Finds r R) :
    Finds (if c then r else pure []) fun choice q => c ∧ R choice q := by
  split
  · rename_i hc
    exact (h hc).congr fun choice q => by simp [hc]
  · rename_i hc
    exact finds_nothing fun choice q hR => hc hR.1

/-- A search at each of several names finds what it finds at any of them, if a choice tells at which
of them it was made. -/
theorem finds_collect {visit : String → ExceptT FileFault Id (List Path)}
    {R : String → List (List String) → Path → Prop}
    (htells : ∀ m n choice q q', R m choice q → R n choice q' → m = n) :
    ∀ names : List String, names.Nodup → (∀ n ∈ names, Finds (visit n) (R n)) →
      Finds (Filesystem.collect visit names) fun choice q => ∃ n ∈ names, R n choice q
  | [], _, _ => finds_nothing (by simp)
  | n :: names, hnodup, hvisit => by
    obtain ⟨hn, hnodup⟩ := List.nodup_cons.mp hnodup
    have hmore := finds_collect htells names hnodup fun m hm =>
      hvisit m (List.mem_cons_of_mem n hm)
    refine ((hvisit n List.mem_cons_self).append hmore ?_).congr fun choice q => ?_
    · rintro choice q hR ⟨m, hm, hR'⟩
      exact hn (htells n m choice q q hR hR' ▸ hm)
    · simp

/-- What a search finds at each of several names, which a choice starts with. -/
theorem finds_names {visit : Path → ExceptT FileFault Id (List Path)}
    {R : Path → List (List String) → Path → Prop} (hvisit : ∀ p, Finds (visit p) (R p))
    (place : String → Path) (names : List String) (hnodup : names.Nodup) :
    Finds (Filesystem.collect (fun n => visit (place n)) names) fun choice q =>
      ∃ n ∈ names, ∃ more, choice = [n] :: more ∧ R (place n) more q := by
  refine finds_collect ?_ names hnodup fun n _ => (hvisit (place n)).cons [n]
  rintro m n choice q q' ⟨_, rfl, -⟩ ⟨_, heq, -⟩
  exact (List.cons.inj (List.cons.inj heq).1).1

/-- What is found after something else is asked. -/
theorem Finds.after {α : Type} {a : α} {s : ExceptT FileFault Id α}
    {f : α → ExceptT FileFault Id (List Path)} (hf : Finds (f a) R) (hs : Gives s a) :
    Finds (s >>= f) R := by
  obtain ⟨found, hgives, hnodup, hmem⟩ := hf
  exact ⟨found, hs.bind hgives, hnodup, hmem⟩

end

/-! ### The search for a pattern -/

namespace Disk

variable {disk : Disk}

theorem isDirectory_iff (p : Path) :
    (disk.filesystem.isDirectory p).run = true ↔ disk.IsDirectory p := by
  show decide ((disk.find? p).map FileTree.kind = some .directory) = true ↔ _
  rw [decide_eq_true_iff, IsDirectory]
  rcases disk.find? p with _ | _ | entries <;> simp [FileTree.kind]

theorem isFile_iff (p : Path) : (disk.filesystem.isFile p).run = true ↔ disk.IsFile p := by
  show decide ((disk.find? p).map FileTree.kind = some .file) = true ↔ _
  rw [decide_eq_true_iff, IsFile]
  rcases disk.find? p with _ | content | _ <;> simp [FileTree.kind]

theorem leadsOn_iff (p : Path) (n : String) :
    (disk.filesystem.leadsOn p (p.within n) n).run = true ↔ disk.LeadsOn p n := by
  unfold Filesystem.leadsOn LeadsOn
  split
  · exact isDirectory_iff p
  · show ((disk.find? (p.within n)).map FileTree.kind).isSome = true ↔ _
    rw [Option.isSome_map]

theorem gives_sortedNames (p : Path) :
    Gives (disk.filesystem.sortedNames p) ((disk.namesIn p).mergeSort nameOrder) := by
  refine (gives_lift _).bind ?_
  split
  · rename_i hdirectory
    obtain ⟨entries, hentries⟩ := (isDirectory_iff p).mp hdirectory
    have hnames : disk.filesystem.names p = .ok (disk.namesIn p) := by
      simp [filesystem, namesIn, hentries, FileTree.names]
    refine Gives.bind (a := disk.namesIn p) ?_ (gives_pure _)
    exact hnames
  · rename_i hdirectory
    rw [isDirectory_iff] at hdirectory
    have hnames : disk.namesIn p = [] := by
      unfold namesIn
      split
      · exact absurd ⟨_, ‹_›⟩ hdirectory
      · rfl
    rw [hnames, List.mergeSort_nil]
    exact gives_pure _

end Disk

namespace FileTree

theorem Proper.follow {tree found : FileTree} : ∀ {steps : List String} {above : List FileTree},
    tree.Proper → (∀ t ∈ above, t.Proper) → follow above tree steps = some found → found.Proper
  | [], _, htree, _, h => by
    obtain rfl : tree = found := by simpa [FileTree.follow] using h
    exact htree
  | step :: steps, above, htree, habove, h => by
    cases htree with
    | file content => simp [FileTree.follow] at h
    | @directory entries hnodup hplain hentries =>
      have htree := Proper.directory hnodup hplain hentries
      simp only [FileTree.follow] at h
      split at h
      · exact htree.follow habove h
      split at h
      · cases above with
        | nil => exact htree.follow (by simp) h
        | cons parent above =>
          exact (habove parent List.mem_cons_self).follow
            (fun t ht => habove t (List.mem_cons_of_mem parent ht)) h
      · split at h
        · cases h
        · rename_i child hchild
          exact (hentries _ (mem_of_lookup hchild)).follow
            (List.forall_mem_cons.mpr ⟨htree, habove⟩) h

/-- What leads to an entry are names. -/
theorem Proper.isName_of_at? {found : FileTree} : ∀ {names : List String} {tree : FileTree},
    tree.Proper → tree.at? names = some found → ∀ n ∈ names, Path.IsName n
  | [], _, _, _ => by simp
  | _ :: _, .file _, _, hat => by cases hat
  | m :: names, .directory entries, htree, hat => by
    obtain ⟨child, hchild, hat⟩ := Option.bind_eq_some_iff.mp hat
    have hmem := mem_of_lookup hchild
    cases htree with
    | directory _ hnames hentries =>
      exact List.forall_mem_cons.mpr ⟨hnames _ hmem, (hentries _ hmem).isName_of_at? hat⟩

end FileTree

namespace Disk

variable {disk : Disk}

theorem Proper.find? (hdisk : disk.Proper) {p : Path} {found : FileTree}
    (h : disk.find? p = some found) : found.Proper :=
  hdisk.root.follow (by simp) (follow_of_find? h)

/-- A disk with nothing but a working directory is proper if that is. -/
theorem proper_holding {entries : List (String × FileTree)}
    (h : (FileTree.directory entries).Proper) : (holding (.directory entries)).Proper where
  root := by
    have hname : Path.IsName "work" := by decide +kernel
    exact .directory (by simp) (by simpa using hname) (by simpa using h)
  here := ⟨entries, rfl⟩

theorem Proper.nodup_namesIn (hdisk : disk.Proper) (p : Path) : (disk.namesIn p).Nodup := by
  unfold namesIn
  split
  · rename_i entries hentries
    cases hdisk.find? hentries with
    | directory hnodup _ _ => exact hnodup
  · exact List.nodup_nil

theorem Proper.isName (hdisk : disk.Proper) {p : Path} {n : String}
    (hn : n ∈ disk.namesIn p) : Path.IsName n := by
  unfold namesIn at hn
  split at hn
  · rename_i entries hentries
    obtain ⟨e, he, rfl⟩ := List.mem_map.mp hn
    cases hdisk.find? hentries with
    | directory _ hnames _ => exact hnames e he
  · simp at hn

/-- The place of a name is in the working directory. -/
theorem Proper.place_name (hdisk : disk.Proper) {n : String} (hn : Path.IsName n) :
    disk.place n = disk.here ++ [n] := by
  obtain ⟨entries, hhere⟩ := hdisk.here
  rw [place, way, hn.isAbsolute, if_neg Bool.false_ne_true, hn.steps, List.foldl_append,
    Path.foldl_onward [] (hdisk.root.isName_of_at? hhere), List.nil_append, List.foldl_cons,
    List.foldl_nil, hn.onward]

theorem Proper.namesIn_here (hdisk : disk.Proper) {entries : List (String × FileTree)}
    (hhere : disk.root.at? disk.here = some (.directory entries)) :
    disk.namesIn Path.here = entries.map (·.1) := by
  have hsteps : Path.here.steps = ["."] := by decide +kernel
  obtain ⟨above, hfollow⟩ :=
    FileTree.follow_names [] (hdisk.root.isName_of_at? hhere) hhere
  have hfind : disk.find? Path.here = some (.directory entries) := by
    rw [Disk.find?, if_neg (by decide), way, if_neg (by decide), hsteps, hfollow]
    rfl
  rw [namesIn, hfind]

/-- A file of the working directory is one of its entries. -/
theorem Proper.mem_namesIn (hdisk : disk.Proper) {n : String} (hfile : disk.IsFile n)
    (hn : Path.IsName n) : n ∈ disk.namesIn Path.here := by
  obtain ⟨entries, hhere⟩ := hdisk.here
  obtain ⟨content, hcontent⟩ := hfile
  have hat := at?_place hcontent
  rw [hdisk.place_name hn, FileTree.at?_append, hhere, Option.bind_some,
    FileTree.at?_singleton] at hat
  rw [hdisk.namesIn_here hhere]
  exact List.mem_map_of_mem (f := Prod.fst) (FileTree.mem_of_lookup hat)

theorem finds_sortedNames {p : Path} {f : List String → ExceptT FileFault Id (List Path)}
    {R : List (List String) → Path → Prop} (hdisk : disk.Proper)
    (hf : ∀ names, names.Nodup → (∀ n, n ∈ names ↔ n ∈ disk.namesIn p) → Finds (f names) R) :
    Finds (disk.filesystem.sortedNames p >>= f) R := by
  have hperm := List.mergeSort_perm (disk.namesIn p) nameOrder
  exact (hf _ (hperm.nodup_iff.mpr (hdisk.nodup_namesIn p)) fun n => hperm.mem_iff).after
    (gives_sortedNames p)

/-- A search below a directory finds what it finds at anything below it, if it is told apart where
that is. -/
def Below (disk : Disk) (R : Path → String → List (List String) → Path → Prop) (depth : Nat)
    (p : Path) (choice : List (List String)) (q : Path) : Prop :=
  ∃ names d n more, disk.Descends p names d ∧ names.length < depth ∧ n ∈ disk.namesIn d ∧
    R (d.within n) n more q ∧ choice = names :: [n] :: more

/-- What is found below a directory is found at an entry of it or below that. -/
theorem below_succ {R : Path → String → List (List String) → Path → Prop} {depth : Nat} {p q : Path}
    {choice : List (List String)} :
    Below disk R (depth + 1) p choice q ↔ ∃ n ∈ disk.namesIn p,
      (∃ rest, choice = [] :: rest ∧ ∃ more, rest = [n] :: more ∧ R (p.within n) n more q) ∨
      ∃ more, choice = more.modifyHead (n :: ·) ∧ Below disk R depth (p.within n) more q := by
  constructor
  · rintro ⟨names, d, m, more, hdown, hlength, hm, hR, rfl⟩
    cases hdown with
    | stay => exact ⟨m, hm, .inl ⟨_, rfl, more, rfl, hR⟩⟩
    | @down _ _ n names hn hdown =>
      exact ⟨n, hn, .inr ⟨names :: [m] :: more, rfl,
        names, d, m, more, hdown, Nat.lt_of_succ_lt_succ hlength, hm, hR, rfl⟩⟩
  · rintro ⟨n, hn, ⟨_, rfl, more, rfl, hR⟩ |
      ⟨_, rfl, names, d, m, more, hdown, hlength, hm, hR, rfl⟩⟩
    · exact ⟨[], p, n, more, .stay, Nat.succ_pos _, hn, hR, rfl⟩
    · exact ⟨n :: names, d, m, more, .down hn hdown, Nat.succ_lt_succ hlength, hm, hR, rfl⟩

theorem modifyHead_inj {n : String} {a b : List (List String)}
    (h : a.modifyHead (n :: ·) = b.modifyHead (n :: ·)) : a = b := by
  cases a <;> cases b <;> simp_all

theorem finds_below {visit : Path → String → ExceptT FileFault Id (List Path)}
    {R : Path → String → List (List String) → Path → Prop} (hdisk : disk.Proper)
    (hvisit : ∀ p n, Finds (visit p n) (R p n)) :
    ∀ depth p, Finds (disk.filesystem.below visit depth p) (Below disk R depth p)
  | 0, p => finds_nothing (by simp [Below])
  | depth + 1, p => by
    refine (finds_sortedNames hdisk fun names hnodup hnames => ?_).congr fun choice q =>
      below_succ.symm
    simp only [← hnames]
    -- What is found at an entry itself is chosen without names on the way, what is found below it
    -- with its own name as the first; so a choice tells the two apart, and the entries.
    refine finds_collect ?_ names hnodup fun n _ => Finds.append ?_ ?_ ?_
    · rintro m n choice q q' (⟨_, rfl, more, rfl, -⟩ | ⟨_, rfl, ms, _, _, _, -, -, -, -, rfl⟩)
        (⟨_, heq, more', rfl, -⟩ | ⟨_, heq, ns, _, _, _, -, -, -, -, rfl⟩) <;> simp_all
    · exact ((hvisit _ n).cons [n]).cons []
    · exact (finds_below hdisk hvisit depth _).behind fun a b => modifyHead_inj
    · rintro choice q ⟨_, rfl, -⟩ ⟨_, heq, ns, _, _, _, -, -, -, -, rfl⟩
      simp at heq

theorem leads_nil {p q : Path} {choice : List (List String)} :
    disk.Leads [] p choice q ↔ choice = [] ∧ q = p := by
  constructor
  · rintro ⟨⟩
    exact ⟨rfl, rfl⟩
  · rintro ⟨rfl, rfl⟩
    exact .done

theorem leads_name {n : String} {steps : List Step} {p q : Path} {choice : List (List String)} :
    disk.Leads (.name n :: steps) p choice q ↔
      disk.LeadsOn p n ∧ ∃ more, choice = [n] :: more ∧ disk.Leads steps (p.within n) more q := by
  constructor
  · rintro (_ | ⟨hn, hmore⟩)
    exact ⟨hn, _, rfl, hmore⟩
  · rintro ⟨hn, more, rfl, hmore⟩
    exact .name hn hmore

theorem leads_wild {tokens : List Token} {steps : List Step} {p q : Path}
    {choice : List (List String)} :
    disk.Leads (.wild tokens :: steps) p choice q ↔
      (∃ n, (n ∈ ["..", "."] ∧ disk.IsDirectory p ∧ (Step.wild tokens).startsWithDot = true ∧
          (Step.wild tokens).fits n = true) ∧
        ∃ more, choice = [n] :: more ∧ disk.Leads steps (p.join n) more q) ∨
      ∃ n, (n ∈ disk.namesIn p ∧ (Step.wild tokens).fits n = true) ∧
        ∃ more, choice = [n] :: more ∧ disk.Leads steps (p.within n) more q := by
  constructor
  · intro h
    cases h with
    | entry hn hfits hmore => exact .inr ⟨_, ⟨hn, hfits⟩, _, rfl, hmore⟩
    | dots hn hp hdot hfits hmore => exact .inl ⟨_, ⟨hn, hp, hdot, hfits⟩, _, rfl, hmore⟩
  · rintro (⟨n, ⟨hn, hp, hdot, hfits⟩, more, rfl, hmore⟩ | ⟨n, ⟨hn, hfits⟩, more, rfl, hmore⟩)
    · exact .dots hn hp hdot hfits hmore
    · exact .entry hn hfits hmore

theorem leads_lastDepth {p q : Path} {choice : List (List String)} :
    disk.Leads [.anyDepth] p choice q ↔
      Below disk (fun path _ more q => disk.IsDirectory path ∧ more = [] ∧ q = path) depthLimit p
        choice q := by
  constructor
  · intro h
    cases h with
    | lastDepth hdown hlength hn hdirectory =>
      exact ⟨_, _, _, [], hdown, hlength, hn, ⟨hdirectory, rfl, rfl⟩, rfl⟩
  · rintro ⟨names, d, n, more, hdown, hlength, hn, ⟨hdirectory, rfl, rfl⟩, rfl⟩
    exact .lastDepth hdown hlength hn hdirectory

theorem leads_anyDepth {step : Step} {steps : List Step} {p q : Path}
    {choice : List (List String)} :
    disk.Leads (.anyDepth :: step :: steps) p choice q ↔
      Below disk (fun path n more q => step.fits n = true ∧ disk.Leads steps path more q)
        depthLimit p choice q := by
  constructor
  · intro h
    cases h with
    | anyDepth hdown hlength hn hfits hmore =>
      exact ⟨_, _, _, _, hdown, hlength, hn, ⟨hfits, hmore⟩, rfl⟩
  · rintro ⟨names, d, n, more, hdown, hlength, hn, ⟨hfits, hmore⟩, rfl⟩
    exact .anyDepth hdown hlength hn hfits hmore

theorem mem_dots {tokens : List Token} {p : Path} {n : String} :
    (n ∈ if (Step.wild tokens).startsWithDot && (disk.filesystem.isDirectory p).run then
        ["..", "."].filter fun n => (Step.wild tokens).fits n
      else []) ↔ n ∈ ["..", "."] ∧ disk.IsDirectory p ∧ (Step.wild tokens).startsWithDot = true ∧
        (Step.wild tokens).fits n = true := by
  rw [← isDirectory_iff, List.mem_ite_nil_right, Bool.and_eq_true, List.mem_filter]
  tauto

/-- A search behind steps finds the matches of the steps, each once. -/
theorem finds_pathsFrom (hdisk : disk.Proper) : ∀ (steps : List Step) (p : Path),
    Finds (disk.filesystem.pathsFrom steps p) (disk.Leads steps p)
  | [], p => (finds_one [] p).congr fun choice q => leads_nil.symm
  | .name n :: steps, p => by
    have hmore := (finds_pathsFrom hdisk steps (p.within n)).cons [n]
    refine Finds.congr ?_ fun choice q => leads_name.symm
    simp only [← leadsOn_iff]
    exact (Finds.guard fun _ => hmore).after (gives_lift _)
  | .wild tokens :: steps, p => by
    refine (finds_sortedNames hdisk fun names hnodup hnames => ?_).congr fun choice q =>
      leads_wild.symm
    refine Finds.after ?_ (gives_lift _)
    have hdots := finds_names (finds_pathsFrom hdisk steps) p.join
      (if (Step.wild tokens).startsWithDot && (disk.filesystem.isDirectory p).run then
        ["..", "."].filter fun n => (Step.wild tokens).fits n
      else []) (by split <;> simp [List.Nodup.filter])
    have hentries := finds_names (finds_pathsFrom hdisk steps) p.within
      (names.filter fun n => (Step.wild tokens).fits n) (hnodup.filter _)
    simp only [mem_dots, List.mem_filter, hnames] at hdots hentries
    -- No entry of a directory has the name of one of the two, so nothing is found twice.
    refine hdots.append hentries ?_
    rintro choice q ⟨m, ⟨hm, -⟩, _, rfl, -⟩ ⟨n, ⟨hn, -⟩, _, heq, -⟩
    obtain rfl : m = n := (List.cons.inj (List.cons.inj heq).1).1
    have hdots : ["..", "."] ⊆ ["", ".", ".."] := by decide
    exact (hdisk.isName hn).1 (hdots hm)
  | [.anyDepth], p => by
    refine (finds_below hdisk (fun path n => ?_) depthLimit p).congr fun choice q =>
      leads_lastDepth.symm
    simp only [← isDirectory_iff]
    refine Finds.after ?_ (gives_lift _)
    rw [apply_ite pure]
    exact Finds.guard fun _ => finds_one [] path
  | .anyDepth :: step :: steps, p => by
    refine (finds_below hdisk (fun path n => ?_) depthLimit p).congr fun choice q =>
      leads_anyDepth.symm
    exact Finds.guard fun _ => finds_pathsFrom hdisk steps path

theorem gives_filterAuxM : ∀ paths kept : List Path,
    Gives (paths.filterAuxM
      (fun p => (liftM (disk.filesystem.isFile p) : ExceptT FileFault Id Bool)) kept)
      ((paths.filter fun p => (disk.filesystem.isFile p).run).reverse ++ kept)
  | [], kept => gives_pure kept
  | p :: paths, kept => by
    refine (gives_lift _).bind ?_
    have hmore := gives_filterAuxM paths
      (if (disk.filesystem.isFile p).run then p :: kept else kept)
    rw [List.filter_cons]
    split <;> simp_all [cond]

/-- The files among some paths. -/
theorem gives_filterM (paths : List Path) :
    Gives (paths.filterM fun p => (liftM (disk.filesystem.isFile p) : ExceptT FileFault Id Bool))
      (paths.filter fun p => (disk.filesystem.isFile p).run) := by
  refine (gives_filterAuxM paths []).bind ?_
  rw [List.append_nil, List.reverse_reverse]
  exact gives_pure _

end Disk

/-- A match of a pattern is a file that its steps lead to. A pattern that ends in a slash has none.
-/
def IsMatch (disk : Disk) (pattern : Pattern) (choice : List (List String)) (q : Path) : Prop :=
  pattern.directoryOnly = false ∧
    disk.Leads pattern.steps (if pattern.isAbsolute then "/" else Path.here) choice q ∧
      disk.IsFile q

theorem finds_expand {disk : Disk} (hdisk : disk.Proper) (pattern : Pattern) :
    Finds (disk.filesystem.expand pattern) (IsMatch disk pattern) := by
  obtain ⟨found, hgives, hnodup, hmem⟩ := Disk.finds_pathsFrom hdisk pattern.steps
    (if pattern.isAbsolute then "/" else Path.here)
  refine ⟨if pattern.directoryOnly then [] else
    found.filter fun x => (disk.filesystem.isFile x.2).run, ?_, ?_, fun choice q => ?_⟩
  · refine hgives.bind ((Disk.gives_filterM _).bind ?_)
    rw [List.filter_map, apply_ite (List.map Prod.snd)]
    exact gives_pure _
  · split
    · exact List.nodup_nil
    · exact hnodup.filter _
  · rw [List.mem_ite_nil_left, List.mem_filter, hmem, Disk.isFile_iff, Bool.not_eq_true]
    rfl

theorem Finds.one_iff {r : ExceptT FileFault Id (List Path)} {R : List (List String) → Path → Prop}
    (h : Finds r R) {q : Path} :
    Gives r [q] ↔ ∃ choice, ∀ choice' q', R choice' q' ↔ choice' = choice ∧ q' = q := by
  obtain ⟨found, hgives, hnodup, hmem⟩ := h
  simp only [← hmem, hgives.iff]
  constructor
  · intro heq
    obtain ⟨⟨choice, q⟩, rfl, rfl⟩ := List.map_eq_singleton_iff.mp heq
    exact ⟨choice, by simp⟩
  · rintro ⟨choice, hone⟩
    have hperm := (List.perm_ext_iff_of_nodup hnodup (List.nodup_singleton (choice, q))).mpr
      fun x => by simp [← Prod.mk.injEq, hone]
    rw [List.perm_singleton.mp hperm]
    rfl

end Trawl.Files
