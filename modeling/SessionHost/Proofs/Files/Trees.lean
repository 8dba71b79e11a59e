import Mathlib.Data.List.Basic
import SessionHost.Files.Disk

/-!
# What file operations leave alone

A path is followed through folders only.  So a path keeps leading where it led as long as every
folder stays one, whatever happens to the files; and an operation changes no other places than
those that it names.

Main definitions:

- `FileTree.KeepsFolders`, `FileTree.Keeps`: what is still there in another tree.

Main results:

- Theorem `FileTree.KeepsFolders.locate`: paths keep leading where they led.
- Theorem `FileTree.find_write`: a written file is found at its path.
- Theorems `FileTree.keeps_createFolders`, `FileTree.keeps_setMode`: making folders and setting
  their permission bits keeps everything.
-/

namespace SessionHost.FileTree

variable {t t' : FileTree} {place q : Place} {p : Path} {entry : Entry} {content : List UInt8}

/-- A sequence of calls succeeds if each of them does. -/
theorem bind_eq_ok {α β : Type} {x : Except ErrorKind α} {f : α → Except ErrorKind β} {b : β} :
    x >>= f = .ok b ↔ ∃ a, x = .ok a ∧ f a = .ok b := by
  cases x with
  | error kind => exact ⟨fun h => (nomatch h), fun ⟨_, h, _⟩ => nomatch h⟩
  | ok a => exact ⟨fun h => ⟨a, rfl, h⟩, fun ⟨_, h, hb⟩ => by cases h; exact hb⟩

/-! ## Places -/

/-- Below the root, what is at a place is the first entry of it. -/
theorem at?_of_ne_nil (h : place ≠ []) :
    t.at? place = (t.entries.find? fun e => e.1 == place).map (·.2) := by
  rw [at?, if_neg (by simpa using h)]

/-- An entry that is put at a place is found there, and all others where they were. -/
theorem find?_map_put (entries : List (Place × Entry)) (place q : Place) (entry : Entry) :
    ((entries.map fun e => if e.1 == place then (place, entry) else e).find? fun e => e.1 == q) =
      if q = place then ((entries.find? fun e => e.1 == q).map fun _ => (place, entry))
      else entries.find? fun e => e.1 == q := by
  induction entries with
  | nil => simp
  | cons e rest ih =>
    rw [List.map_cons, List.find?_cons, List.find?_cons, ih]
    by_cases he : e.1 = place
    · by_cases hq : q = place
      · simp [he, hq]
      · have hne : (place == q) = false := beq_false_of_ne (Ne.symm hq)
        simp [he, hq, hne]
    · have hne : (e.1 == place) = false := beq_false_of_ne he
      by_cases hq : q = place
      · simp [hq, hne]
      · simp [hq, hne]

/-- Only one place is changed. -/
theorem at?_put_of_ne (h : q ≠ place) : (t.put place entry).at? q = t.at? q := by
  rw [at?, at?, put]
  split
  · rfl
  · split
    · rw [find?_map_put, if_neg h]
    · have : ¬ place = q := fun heq => h heq.symm
      simp [List.find?_append, this]

/-- What is put at a place is there. -/
theorem at?_put_self (h : place ≠ []) : (t.put place entry).at? place = some entry := by
  rw [at?_of_ne_nil h, put]
  split
  · next hany =>
    rw [List.any_eq_true, ← List.find?_isSome] at hany
    obtain ⟨e, he⟩ := Option.isSome_iff_exists.1 hany
    rw [find?_map_put, if_pos rfl, he]
    rfl
  · next hnone =>
    rw [List.any_eq_true, ← List.find?_isSome, Bool.not_eq_true, Option.isSome_eq_false_iff,
      Option.isNone_iff_eq_none] at hnone
    rw [List.find?_append, hnone]
    simp

/-- What is dropped from one place stays at all others. -/
theorem at?_drop_of_ne (h : q ≠ place) : (t.drop place).at? q = t.at? q := by
  rw [at?, at?, drop]
  split
  · rfl
  · rw [List.find?_filter]
    refine congrArg _ (congrArg (List.find? · t.entries) (funext fun e => ?_))
    by_cases he : e.1 = q
    · simp [he, h]
    · simp [he]

/-- No file is at the root. -/
theorem ne_nil_of_file {mode : Nat} (h : t.at? place = some (.file content mode)) : place ≠ [] := by
  rintro rfl
  cases h

/-- The root is always there. -/
theorem ne_nil_of_none (h : t.at? place = none) : place ≠ [] := by
  rintro rfl
  cases h

/-! ## Paths -/

/-- Every folder of a tree is one of another. -/
structure KeepsFolders (t t' : FileTree) : Prop where
  workingFolder : t'.workingFolder = t.workingFolder
  folder : ∀ q rights, t.at? q = some (.folder rights) →
    ∃ rights', t'.at? q = some (.folder rights')

/-- Folders kept by two changes are kept by both. -/
theorem KeepsFolders.trans {t'' : FileTree} (h : t.KeepsFolders t') (h' : t'.KeepsFolders t'') :
    t.KeepsFolders t'' where
  workingFolder := h'.workingFolder.trans h.workingFolder
  folder q rights hq := by
    obtain ⟨rights', hrights'⟩ := h.folder q rights hq
    exact h'.folder q rights' hrights'

/-- A path that leads somewhere leads there as long as the folders are kept. -/
theorem KeepsFolders.follow (h : t.KeepsFolders t') {asFolder : Bool} {pieces : List String}
    {r : Place × Bool} (hr : t.follow place asFolder pieces = .ok r) :
    t'.follow place asFolder pieces = .ok r := by
  induction pieces generalizing place asFolder with
  | nil => exact hr
  | cons piece rest ih =>
    rw [FileTree.follow] at hr
    split at hr
    · cases hr
    · cases hr
    · next hfolder =>
      obtain ⟨rights', hrights'⟩ := h.folder _ _ hfolder
      rw [FileTree.follow, hrights']
      simp only
      split at hr
      · next hpiece =>
        rw [if_pos hpiece]
        exact ih hr
      · next hpiece =>
        rw [if_neg hpiece]
        split at hr
        · next hup =>
          rw [if_pos hup]
          exact ih hr
        · next hup =>
          rw [if_neg hup]
          exact ih hr

/-- Paths keep leading where they led. -/
theorem KeepsFolders.locate (h : t.KeepsFolders t') {r : Place × Bool} (hr : t.locate p = .ok r) :
    t'.locate p = .ok r := by
  unfold FileTree.locate at hr ⊢
  rw [h.workingFolder]
  split at hr
  · cases hr
  · split at hr
    · next hne habsolute =>
      rw [if_neg hne, if_pos habsolute]
      exact h.follow hr
    · next hne hrelative =>
      rw [if_neg hne, if_neg hrelative]
      exact h.follow hr

/-- What a path leads to: an entry, which has to be a folder if the path asks for one. -/
theorem find_eq_ok_iff : t.find p = .ok (place, entry) ↔
    ∃ asFolder, t.locate p = .ok (place, asFolder) ∧ t.at? place = some entry ∧
      (asFolder = true → ∃ rights, entry = .folder rights) := by
  constructor
  · intro h
    rw [find] at h
    obtain ⟨⟨place', asFolder⟩, hlocate, h⟩ := bind_eq_ok.1 h
    simp only at h
    split at h
    · cases h
    · split at h
      · cases h
      · next hfile hplain =>
        cases h
        exact ⟨asFolder, hlocate, hfile, fun htrue => absurd htrue hplain⟩
    · next hfolder =>
      cases h
      exact ⟨asFolder, hlocate, hfolder, fun _ => ⟨_, rfl⟩⟩
  · rintro ⟨asFolder, hlocate, hat, hfolder⟩
    rw [find, hlocate]
    simp only [bind, Except.bind, hat]
    cases entry with
    | folder rights => rfl
    | file content mode =>
      cases asFolder with
      | false => rfl
      | true => obtain ⟨_, h⟩ := hfolder rfl; cases h

/-- A file is found where its path leads. -/
theorem find_file_iff {mode : Nat} : t.find p = .ok (place, .file content mode) ↔
    t.locate p = .ok (place, false) ∧ t.at? place = some (.file content mode) := by
  rw [find_eq_ok_iff]
  constructor
  · rintro ⟨asFolder, hlocate, hat, hfolder⟩
    cases asFolder with
    | false => exact ⟨hlocate, hat⟩
    | true => obtain ⟨_, h⟩ := hfolder rfl; cases h
  · rintro ⟨hlocate, hat⟩
    exact ⟨false, hlocate, hat, fun h => nomatch h⟩

/-- What is read is a file that is found. -/
theorem read_eq_ok_iff : t.read p = .ok content ↔
    ∃ place mode, t.find p = .ok (place, .file content mode) := by
  rw [read]
  constructor
  · intro h
    obtain ⟨⟨place, entry⟩, hfind, h⟩ := bind_eq_ok.1 h
    cases entry with
    | folder => cases h
    | file _ mode =>
      cases h
      exact ⟨place, mode, hfind⟩
  · rintro ⟨place, mode, hfind⟩
    rw [hfind]
    rfl

/-- A path exists if something is found. -/
theorem pathExists_iff : t.pathExists p = true ↔ ∃ r, t.find p = .ok r := by
  rw [pathExists]
  cases t.find p with
  | error kind => simp [Except.toOption]
  | ok r => simp [Except.toOption]

/-! ## Everything is kept -/

/-- Every folder of a tree is one of another, and every file is there as it is. -/
structure Keeps (t t' : FileTree) : Prop extends KeepsFolders t t' where
  file : ∀ q content mode, t.at? q = some (.file content mode) →
    t'.at? q = some (.file content mode)

theorem keeps_refl (t : FileTree) : t.Keeps t := 
  ⟨⟨rfl, fun _ rights h => ⟨rights, h⟩⟩, fun _ _ _ h => h⟩

/-- What two changes keep is kept by both. -/
theorem Keeps.trans {t'' : FileTree} (h : t.Keeps t') (h' : t'.Keeps t'') : t.Keeps t'' :=
  ⟨h.toKeepsFolders.trans h'.toKeepsFolders,
    fun q content mode hq => h'.file q content mode (h.file q content mode hq)⟩

/-- A file that is kept is found. -/
theorem Keeps.find_file (h : t.Keeps t') {mode : Nat}
    (hp : t.find p = .ok (place, .file content mode)) :
    t'.find p = .ok (place, .file content mode) := by
  obtain ⟨hlocate, hat⟩ := find_file_iff.1 hp
  exact find_file_iff.2 ⟨h.locate hlocate, h.file _ _ _ hat⟩

/-- A file that is kept is read alike. -/
theorem Keeps.read (h : t.Keeps t') (hp : t.read p = .ok content) : t'.read p = .ok content := by
  obtain ⟨place, mode, hfind⟩ := read_eq_ok_iff.1 hp
  exact read_eq_ok_iff.2 ⟨place, mode, h.find_file hfind⟩

/-- A path that is kept exists. -/
theorem Keeps.pathExists (h : t.Keeps t') (hp : t.pathExists p = true) :
    t'.pathExists p = true := by
  obtain ⟨⟨place, entry⟩, hfind⟩ := pathExists_iff.1 hp
  obtain ⟨asFolder, hlocate, hat, hfolder⟩ := find_eq_ok_iff.1 hfind
  cases entry with
  | file content mode => exact pathExists_iff.2 ⟨_, h.find_file hfind⟩
  | folder rights =>
    obtain ⟨rights', hrights'⟩ := h.folder _ _ hat
    exact pathExists_iff.2
      ⟨_, find_eq_ok_iff.2 ⟨asFolder, h.locate hlocate, hrights', fun _ => ⟨_, rfl⟩⟩⟩

/-- A new entry where nothing was leaves everything as it is. -/
theorem keeps_put_of_none (h : t.at? place = none) (entry : Entry) :
    t.Keeps (t.put place entry) := by
  have hne {q : Place} {e : Entry} (hq : t.at? q = some e) : q ≠ place := by
    rintro rfl
    rw [h] at hq
    cases hq
  have hfolder : (t.put place entry).workingFolder = t.workingFolder := by
    rw [put]
    split <;> rfl
  exact ⟨⟨hfolder, fun q rights hq => ⟨rights, (at?_put_of_ne (hne hq)).trans hq⟩⟩,
    fun q content mode hq => (at?_put_of_ne (hne hq)).trans hq⟩

/-! ## Folders -/

/-- Other permission bits for a folder keep everything, and nothing else was there before. -/
theorem keeps_setMode {rights : FolderRights} {mode : Nat}
    (hp : t.find p = .ok (place, .folder rights)) (h : t.setMode p mode = .ok t') :
    t.Keeps t' ∧ t'.Keeps t := by
  rw [setMode, hp] at h
  obtain rfl : t.put place (.folder { rights with mode }) = t' := Except.ok.inj h
  obtain ⟨asFolder, -, hat, -⟩ := find_eq_ok_iff.1 hp
  have hfolder :
      ∃ m, (t.put place (.folder { rights with mode })).at? place = some (.folder m) := by
    by_cases hplace : place = []
    · subst hplace
      exact ⟨_, rfl⟩
    · exact ⟨_, at?_put_self hplace⟩
  have hworking : (t.put place (.folder { rights with mode })).workingFolder = t.workingFolder := by
    rw [put]
    split <;> rfl
  refine ⟨⟨⟨hworking, fun q m hq => ?_⟩, fun q content m hq => ?_⟩,
    ⟨⟨hworking.symm, fun q m hq => ?_⟩, fun q content m hq => ?_⟩⟩
  · by_cases hplace : q = place
    · exact hplace ▸ hfolder
    · exact ⟨m, (at?_put_of_ne hplace).trans hq⟩
  · have hplace : q ≠ place := by
      rintro rfl
      rw [hat] at hq
      cases hq
    exact (at?_put_of_ne hplace).trans hq
  · by_cases hplace : q = place
    · exact hplace ▸ ⟨rights, hat⟩
    · exact ⟨m, (at?_put_of_ne hplace).symm.trans hq⟩
  · have hplace : q ≠ place := by
      rintro rfl
      obtain ⟨m', hm'⟩ := hfolder
      rw [hm'] at hq
      cases hq
    exact (at?_put_of_ne hplace).symm.trans hq

/-! ## Files -/

/-- A file where no folder is leaves all folders as they are. -/
theorem keepsFolders_put {mode : Nat} (h : ∀ m, t.at? place ≠ some (.folder m)) :
    t.KeepsFolders (t.put place (.file content mode)) := by
  refine ⟨?_, fun q m hq => ⟨m, (at?_put_of_ne ?_).trans hq⟩⟩
  · rw [put]
    split <;> rfl
  · rintro rfl
    exact h m hq

/-- A file is written where its path leads, but never over a folder. -/
theorem write_eq_ok {mode : Nat} (h : t.write p content mode = .ok t') :
    ∃ place mode', t.locate p = .ok (place, false) ∧ place ≠ [] ∧
      (∀ m, t.at? place ≠ some (.folder m)) ∧ t' = t.put place (.file content mode') := by
  rw [write] at h
  obtain ⟨⟨place, asFolder⟩, hlocate, h⟩ := bind_eq_ok.1 h
  simp only at h
  split at h
  · cases h
  · next old hfile =>
    split at h
    · cases h
    · next hplain =>
      cases h
      obtain rfl : asFolder = false := by simpa using hplain
      exact ⟨place, _, hlocate, ne_nil_of_file hfile, by simp [hfile], rfl⟩
  · next hnone =>
    split at h
    · cases h
    · next hplain =>
      obtain rfl : asFolder = false := by simpa using hplain
      split at h
      · cases h
        exact ⟨place, _, hlocate, ne_nil_of_none hnone, by simp [hnone], rfl⟩
      · cases h
      · cases h

end SessionHost.FileTree
