import SessionHost.Proofs.Files.Trees

/-!
# What can be read after a change

A change of a tree brings no other bytes into a file than those that it writes.

Main results:

- Theorem `FileTree.read_of_write`: what is read after a file is written was there before, or is
  what was written.
- Theorems `FileTree.read_of_delete`, `FileTree.read_deleted`: what is read after a file is deleted
  was there before, and the deleted file is gone.
-/

namespace SessionHost.FileTree

variable {t t' : FileTree} {place : Place} {p q : Path} {content bytes : List UInt8} {mode : Nat}

/-- If paths lead nowhere else and a place holds no new bytes, no new bytes are read. -/
theorem KeepsFolders.read_of (h : t'.KeepsFolders t)
    (hfile : ∀ place mode, t'.at? place = some (.file bytes mode) →
      ∃ mode', t.at? place = some (.file bytes mode'))
    (hr : t'.read q = .ok bytes) : t.read q = .ok bytes := by
  obtain ⟨place, mode, hfind⟩ := read_eq_ok_iff.1 hr
  obtain ⟨hlocate, hat⟩ := find_file_iff.1 hfind
  obtain ⟨mode', hat'⟩ := hfile place mode hat
  exact read_eq_ok_iff.2 ⟨place, mode', find_file_iff.2 ⟨h.locate hlocate, hat'⟩⟩

/-! ## Writing -/

/-- A new file brings no folder. -/
theorem keepsFolders_of_put (hplace : place ≠ []) :
    (t.put place (.file content mode)).KeepsFolders t := by
  refine ⟨?_, fun q m hq => ⟨m, (at?_put_of_ne ?_).symm.trans hq⟩⟩
  · rw [put]
    split <;> rfl
  · rintro rfl
    rw [at?_put_self hplace] at hq
    cases hq

/-- What is read after a file is written was there before, or is what was written. -/
theorem read_of_write (h : t.write p content mode = .ok t') (hr : t'.read q = .ok bytes) :
    t.read q = .ok bytes ∨ bytes = content := by
  obtain ⟨place, mode', -, hne, -, rfl⟩ := write_eq_ok h
  by_cases hbytes : bytes = content
  · exact .inr hbytes
  · refine .inl ((keepsFolders_of_put hne).read_of (fun place' m hat => ⟨m, ?_⟩) hr)
    by_cases hplace : place' = place
    · subst hplace
      rw [at?_put_self hne] at hat
      cases hat
      exact absurd rfl hbytes
    · exact (at?_put_of_ne hplace).symm.trans hat

/-! ## Deleting -/

theorem at?_drop_self (hplace : place ≠ []) : (t.drop place).at? place = none := by
  rw [at?_of_ne_nil hplace, drop, Option.map_eq_none_iff, List.find?_eq_none]
  intro e he
  have hkept := (List.mem_filter.1 he).2
  simpa using hkept

theorem delete_eq_ok (h : t.delete p = .ok t') :
    ∃ place content mode, t.find p = .ok (place, .file content mode) ∧ t' = t.drop place := by
  rw [delete] at h
  obtain ⟨⟨place, entry⟩, hfind, h⟩ := bind_eq_ok.1 h
  cases entry with
  | folder => cases h
  | file content mode =>
    cases h
    exact ⟨place, content, mode, hfind, rfl⟩

/-- A file that is deleted was no folder. -/
theorem keepsFolders_drop (h : t.at? place = some (.file content mode)) :
    t.KeepsFolders (t.drop place) := by
  refine ⟨rfl, fun q m hq => ⟨m, (at?_drop_of_ne ?_).trans hq⟩⟩
  rintro rfl
  rw [h] at hq
  cases hq

theorem keepsFolders_of_drop (hplace : place ≠ []) : (t.drop place).KeepsFolders t := by
  refine ⟨rfl, fun q m hq => ⟨m, (at?_drop_of_ne ?_).symm.trans hq⟩⟩
  rintro rfl
  rw [at?_drop_self hplace] at hq
  cases hq

/-- What is read after a file is deleted was there before. -/
theorem read_of_delete (h : t.delete p = .ok t') (hr : t'.read q = .ok bytes) :
    t.read q = .ok bytes := by
  obtain ⟨place, content, mode, hfind, rfl⟩ := delete_eq_ok h
  have hne : place ≠ [] := ne_nil_of_file (find_file_iff.1 hfind).2
  refine (keepsFolders_of_drop hne).read_of (fun place' m hat => ⟨m, ?_⟩) hr
  have hplace : place' ≠ place := by
    rintro rfl
    rw [at?_drop_self hne] at hat
    cases hat
  exact (at?_drop_of_ne hplace).symm.trans hat

/-- A deleted file is gone. -/
theorem read_deleted (h : t.delete p = .ok t') : t'.read p = .error .notFound := by
  obtain ⟨place, content, mode, hfind, rfl⟩ := delete_eq_ok h
  obtain ⟨hlocate, hat⟩ := find_file_iff.1 hfind
  have hlocate' := (keepsFolders_drop hat).locate hlocate
  rw [read, find, hlocate']
  simp only [bind, Except.bind, at?_drop_self (ne_nil_of_file hat)]

/-- A file that can be read can be deleted. -/
theorem delete_of_read (h : t.read p = .ok bytes) : ∃ t', t.delete p = .ok t' := by
  obtain ⟨place, mode, hfind⟩ := read_eq_ok_iff.1 h
  rw [delete, hfind]
  exact ⟨_, rfl⟩

end SessionHost.FileTree
