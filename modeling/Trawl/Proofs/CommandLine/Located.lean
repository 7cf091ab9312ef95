import Trawl.CommandLine.Input
import Trawl.Proofs.Files.OneStep

/-!
# Captures that are named

The path of a capture that is there is not always taken for what it says: one with wildcards is a
pattern, and what is read is what fits it. So the capture itself is read if it is the only file that
does (`named_capture_read_iff`); otherwise there is an error, or another capture is read.
-/

namespace Trawl.CommandLine

open Files (Disk FileTree IsMatch Path Pattern Step)

variable {disk : Disk} {path found : Path}

theorem resolveInput_of_not_isMeant (hmeant : Pattern.isMeant path = false) :
    (resolveInput disk.filesystem path).run = Except.ok found ↔ found = path := by
  rw [resolveInput, if_neg (by simp [hmeant])]
  show Except.ok path = Except.ok found ↔ _
  rw [Except.ok.injEq, eq_comm]

theorem resolveInput_of_isMeant (hdisk : disk.Proper) (hmeant : Pattern.isMeant path = true) :
    (resolveInput disk.filesystem path).run = Except.ok found ↔
      ∃ pattern, Pattern.parse path = .ok pattern ∧ ∃ choice, ∀ choice' found',
        IsMatch disk pattern choice' found' ↔ choice' = choice ∧ found' = found := by
  rw [resolveInput, if_pos hmeant]
  cases hpattern : Pattern.parse path with
  | error fault =>
    constructor
    · rintro ⟨⟩
    · rintro ⟨pattern, ⟨⟩, -⟩
  | ok pattern =>
    have hfinds := Files.finds_expand hdisk pattern
    simp only [Except.ok.injEq, exists_eq_left', ← hfinds.one_iff]
    obtain ⟨found', hgives, -, -⟩ := hfinds
    have hexpand : (disk.filesystem.expand pattern).run = Except.ok (found'.map Prod.snd) := hgives
    rw [hgives.iff, hexpand]
    rcases found'.map Prod.snd with _ | ⟨p, _ | ⟨q, more⟩⟩
    · show (Except.error _ : Except InputFault Path) = _ ↔ _
      simp
    · show (Except.ok p : Except InputFault Path) = _ ↔ _
      simp
    · show (Except.error _ : Except InputFault Path) = _ ↔ _
      simp

theorem checkInput_eq_ok_iff :
    (checkInput disk.filesystem path).run = Except.ok () ↔
      disk.IsFile path ∧ isCapturePath path = true := by
  have hkind : disk.filesystem.kind? path = (disk.find? path).map FileTree.kind := rfl
  simp only [checkInput, hkind, Disk.IsFile]
  rcases disk.find? path with _ | content | entries
  · show (Except.error _ : Except InputFault Unit) = _ ↔ _
    simp
  · show (ite (isCapturePath path = true) _ _ : ExceptT InputFault Id Unit).run = _ ↔ _
    split
    · rename_i hcapture
      exact iff_of_true rfl ⟨⟨content, rfl⟩, hcapture⟩
    · rename_i hcapture
      refine iff_of_false ?_ fun h => hcapture h.2
      rintro ⟨⟩
  · show (Except.error _ : Except InputFault Unit) = _ ↔ _
    simp

theorem locateInput_eq_ok_iff :
    (locateInput disk.filesystem path).run = Except.ok found ↔
      (resolveInput disk.filesystem path).run = Except.ok found ∧ disk.IsFile found ∧
        isCapturePath found = true := by
  rw [← checkInput_eq_ok_iff, locateInput, ExceptT.run_bind]
  rcases (resolveInput disk.filesystem path).run with fault | p
  · show (Except.error _ : Except InputFault Path) = _ ↔ _
    simp
  show (checkInput disk.filesystem p >>= fun _ => pure p).run = _ ↔
    (Except.ok p : Except InputFault Path) = _ ∧ _
  rw [ExceptT.run_bind, Except.ok.injEq]
  rcases hcheck : (checkInput disk.filesystem p).run with fault | ⟨⟩
  · refine iff_of_false ?_ ?_
    · rintro ⟨⟩
    · rintro ⟨rfl, h⟩
      cases hcheck.symm.trans h
  · show (Except.ok p : Except InputFault Path) = _ ↔ _
    rw [Except.ok.injEq, iff_self_and]
    rintro rfl
    exact hcheck

theorem isCapturePath_of_place {p q : Path} (hp : disk.IsFile p) (hq : disk.IsFile q)
    (h : disk.place p = disk.place q) : isCapturePath p = isCapturePath q := by
  rw [isCapturePath, isCapturePath, Path.extension?, Path.extension?, Disk.fileName_eq hp,
    Disk.fileName_eq hq, h]

/-- A name with wildcards stands for the only file in the working directory that fits it, which has
to be a capture. -/
theorem locateInput_name_iff (hdisk : disk.Proper) (hname : Path.IsName path)
    (hmeant : Pattern.isMeant path = true) (hcapture : isCapturePath path = true) :
    (locateInput disk.filesystem path).run = Except.ok found ↔ isCapturePath found = true ∧
      ∃ tokens, Step.tokens? path.toList = .ok tokens ∧ ∀ n, n = found ↔
        n ∈ disk.namesIn Path.here ∧ (Step.wild tokens).fits n = true ∧ disk.IsFile n := by
  -- The one name that is read as any number of directories does not end as a capture's does.
  have hdepth : path.toList ≠ ['*', '*'] := by
    rintro hstars
    rw [← String.ofList_toList (s := path), hstars] at hcapture
    exact absurd hcapture (by decide +kernel)
  rw [locateInput_eq_ok_iff, resolveInput_of_isMeant hdisk hmeant, Pattern.parse_of_isName hname,
    Step.parse_of_isMeant hmeant hdepth]
  cases htokens : Step.tokens? path.toList with
  | error fault => simp [Except.map]
  | ok tokens =>
    simp only [Except.map, Except.ok.injEq, exists_eq_left', Files.isMatch_wild]
    constructor
    · rintro ⟨⟨choice, hone⟩, -, hcapture'⟩
      refine ⟨hcapture', fun n => ⟨?_, fun hn => ((hone [[n]] n).mp ⟨rfl, hn⟩).2⟩⟩
      rintro rfl
      exact ((hone choice n).mpr ⟨rfl, rfl⟩).2
    · rintro ⟨hcapture', hone⟩
      refine ⟨⟨[[found]], fun choice' n => ?_⟩, ((hone found).mp rfl).2.2, hcapture'⟩
      rw [← hone n, and_congr_left_iff]
      rintro rfl
      rfl

/-- A name without brackets is not taken for another: it fits itself, so if it is read as a pattern
that another name fits too, there are several matches. -/
theorem eq_of_locateInput_name (hdisk : disk.Proper) (hname : Path.IsName path)
    (hfile : disk.IsFile path) (hcapture : isCapturePath path = true) (hbracket : '[' ∉ path.toList)
    (h : (locateInput disk.filesystem path).run = Except.ok found) : found = path := by
  cases hmeant : Pattern.isMeant path with
  | false => exact (resolveInput_of_not_isMeant hmeant).mp (locateInput_eq_ok_iff.mp h).1
  | true =>
    obtain ⟨-, tokens, htokens, hone⟩ := (locateInput_name_iff hdisk hname hmeant hcapture).mp h
    have hfits : (Step.wild tokens).fits path = true := Step.fitAll_self htokens hbracket
    exact ((hone path).mpr ⟨hdisk.mem_namesIn hfile hname, hfits, hfile⟩).symm

/-- The capture that a path names, from the root or from the working directory, is read exactly if
the path has no wildcards, or as a pattern has that capture for its only match. -/
theorem named_capture_read_iff (hdisk : disk.Proper) (hfile : disk.IsFile path)
    (hcapture : isCapturePath path = true) :
    (∃ found, (locateInput disk.filesystem path).run = Except.ok found ∧
        disk.place found = disk.place path ∧ disk.find? found = disk.find? path) ↔
      Pattern.isMeant path = false ∨ ∃ pattern, Pattern.parse path = .ok pattern ∧
        ∃ choice found, disk.place found = disk.place path ∧ ∀ choice' found',
          IsMatch disk pattern choice' found' ↔ choice' = choice ∧ found' = found := by
  cases hmeant : Pattern.isMeant path with
  | false =>
    refine iff_of_true ⟨path, locateInput_eq_ok_iff.mpr ?_, rfl, rfl⟩ (.inl rfl)
    exact ⟨(resolveInput_of_not_isMeant hmeant).mpr rfl, hfile, hcapture⟩
  | true =>
    constructor
    · rintro ⟨found, hlocate, hplace, -⟩
      obtain ⟨hresolve, -, -⟩ := locateInput_eq_ok_iff.mp hlocate
      obtain ⟨pattern, hpattern, choice, hone⟩ := (resolveInput_of_isMeant hdisk hmeant).mp hresolve
      exact .inr ⟨pattern, hpattern, choice, found, hplace, hone⟩
    · rintro (⟨⟨⟩⟩ | ⟨pattern, hpattern, choice, found, hplace, hone⟩)
      obtain ⟨-, -, hfound⟩ := (hone choice found).mpr ⟨rfl, rfl⟩
      refine ⟨found, locateInput_eq_ok_iff.mpr ⟨?_, hfound, ?_⟩, hplace, ?_⟩
      · exact (resolveInput_of_isMeant hdisk hmeant).mpr ⟨pattern, hpattern, choice, hone⟩
      · rw [isCapturePath_of_place hfound hfile hplace, hcapture]
      · obtain ⟨content, hfind⟩ := hfile
        obtain ⟨content', hfind'⟩ := hfound
        exact Disk.find?_of_place hfind' hfind hplace

/-- A capture whose name has a star is read where no other fits it. -/
theorem starred_name_read :
    let disk := Disk.holding (.directory [("a*.pcap", .file []), ("b.pcap", .file [])])
    disk.Proper ∧ disk.IsFile "a*.pcap" ∧ isCapturePath "a*.pcap" = true ∧
      Pattern.isMeant "a*.pcap" = true ∧ ∃ found,
        (locateInput disk.filesystem "a*.pcap").run = Except.ok found ∧
          disk.place found = disk.place "a*.pcap" ∧
          disk.find? found = disk.find? "a*.pcap" := by
  intro disk
  have hdisk : disk.Proper := Disk.proper_holding
    (.directory (by decide) (by decide +kernel) (by simp [FileTree.Proper.file]))
  have hfile : disk.IsFile "a*.pcap" := ⟨[], rfl⟩
  have hcapture : isCapturePath "a*.pcap" = true := by decide +kernel
  refine ⟨hdisk, hfile, hcapture, by decide +kernel,
    (named_capture_read_iff hdisk hfile hcapture).mpr (.inr ?_)⟩
  refine ⟨⟨false, [.wild [.char 'a', .anyChars, .char '.', .char 'p', .char 'c', .char 'a',
    .char 'p']], false⟩, by decide +kernel, [["a*.pcap"]], "a*.pcap", rfl, fun choice n => ?_⟩
  rw [Files.isMatch_wild, hdisk.namesIn_here rfl]
  constructor
  · rintro ⟨rfl, hn, hfits, -⟩
    obtain rfl : n = "a*.pcap" := by
      revert n
      decide +kernel
    exact ⟨rfl, rfl⟩
  · rintro ⟨rfl, rfl⟩
    exact ⟨rfl, by decide, by decide +kernel, hfile⟩

/-- Of two captures the one is read that the name of the other fits as a pattern. -/
theorem bracketed_name_passed_over :
    let disk := Disk.holding (.directory [("a[1].pcap", .file []), ("a1.pcap", .file [])])
    disk.Proper ∧ disk.IsFile "a[1].pcap" ∧ isCapturePath "a[1].pcap" = true ∧
      (locateInput disk.filesystem "a[1].pcap").run = Except.ok "a1.pcap" ∧
      disk.place "a1.pcap" ≠ disk.place "a[1].pcap" := by
  intro disk
  have hdisk : disk.Proper := Disk.proper_holding
    (.directory (by decide) (by decide +kernel) (by simp [FileTree.Proper.file]))
  refine ⟨hdisk, ⟨[], rfl⟩, by decide +kernel, ?_, by decide +kernel⟩
  refine (locateInput_name_iff hdisk (by decide +kernel) (by decide +kernel)
    (by decide +kernel)).mpr ⟨by decide +kernel, [.char 'a', .oneOf false [⟨'1', '1'⟩], .char '.',
      .char 'p', .char 'c', .char 'a', .char 'p'], ?_, fun n => ?_⟩
  · show Step.tokens? "a[1].pcap".toList = _
    decide +kernel
  · rw [hdisk.namesIn_here rfl]
    constructor
    · rintro rfl
      exact ⟨by decide, by decide +kernel, [], rfl⟩
    · rintro ⟨hn, hfits, -⟩
      revert n
      decide +kernel

end Trawl.CommandLine
