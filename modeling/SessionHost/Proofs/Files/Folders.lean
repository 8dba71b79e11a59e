import Mathlib.Data.List.DropRight
import SessionHost.Proofs.Files.Paths

/-!
# Folders of files

Making a folder with those above it makes it a folder, and what is a folder needs nothing more.  The
parent of a path that names a file is the folder in which the file lies.

Main results:

- Theorem `FileTree.isFolder_of_createFolders`: what is made is a folder.
- Theorem `FileTree.createFolders_of_isFolder`: what is a folder is made without a change.
- Theorem `FileTree.lies_join`: the path of an entry of a folder leads to it.
- Theorems `Path.parent?_of_single`, `FileTree.lies_of_parent`: the parent of a path is empty for a
  name alone, and otherwise the path leads to a name in it.
-/

namespace SessionHost

/-- A piece that leads to the folder itself. -/
abbrev IsBlankPiece (s : String) : Prop := s = "" ∨ s = "."

namespace FileTree

variable {t t' : FileTree} {p : Path} {place : Place} {asFolder : Bool} {name : String}
  {before blanks leading : List String} {rights : FolderRights}

/-- A path is a folder's if a folder is found there. -/
theorem isFolder_iff :
    t.isFolder p = true ↔ ∃ place rights, t.find p = .ok (place, .folder rights) := by
  rw [isFolder]
  split
  · next place rights h => exact ⟨fun _ => ⟨place, rights, h⟩, fun _ => rfl⟩
  · next hnone =>
    exact ⟨fun h => (by cases h), fun ⟨place, rights, h⟩ => absurd h (hnone place rights)⟩

/-- A folder that was made is there. -/
theorem isFolder_of_createFolder (h : t.createFolder p = .ok t') : t'.isFolder p = true := by
  rw [createFolder] at h
  obtain ⟨⟨place, asFolder⟩, hlocate, h⟩ := bind_eq_ok.1 h
  simp only at h
  split at h
  · cases h
  · next hnone =>
    split at h
    · cases h
      have hkeeps := keeps_put_of_none hnone (.folder .new)
      refine isFolder_iff.2 ⟨place, .new, find_eq_ok_iff.2 ⟨asFolder, ?_, ?_, ?_⟩⟩
      · exact hkeeps.locate hlocate
      · exact at?_put_self (ne_nil_of_none hnone)
      · exact fun _ => ⟨_, rfl⟩
    · cases h
    · cases h

/-- A folder that was made, or was there before, is there. -/
theorem isFolder_of_ensureFolder (h : t.ensureFolder p = .ok t') : t'.isFolder p = true := by
  rw [ensureFolder] at h
  split at h
  · next hcreate =>
    cases h
    exact isFolder_of_createFolder hcreate
  · split at h
    · next hfolder =>
      cases h
      exact hfolder
    · cases h

/-- A path is the first of its ancestors. -/
theorem exists_ancestors (p : Path) (n : Nat) : ∃ above, ancestors p n = p :: above := by
  cases n with
  | zero => exact ⟨[], rfl⟩
  | succ n =>
    rw [ancestors]
    split
    · split
      · exact ⟨[], rfl⟩
      · exact ⟨_, rfl⟩
    · exact ⟨[], rfl⟩

/-- What is made last is the folder itself. -/
theorem isFolder_of_createFolders (h : t.createFolders p = .ok t') (hp : p.isEmpty = false) :
    t'.isFolder p = true := by
  obtain ⟨above, habove⟩ := exists_ancestors p p.text.length
  rw [createFolders, hp, habove] at h
  simp only [Bool.false_eq_true, if_false] at h
  generalize hmissing : (p :: above).takeWhile _ = missing at h
  have hlast : ∃ before, (((p :: above).drop missing.length).take 1) ++ missing.reverse =
      before ++ [p] := by
    cases missing with
    | nil => exact ⟨[], rfl⟩
    | cons q rest =>
      obtain ⟨rfl, -⟩ : q = p ∧ _ := by
        rw [List.takeWhile_cons] at hmissing
        split at hmissing
        · exact ⟨(List.cons.inj hmissing).1.symm, trivial⟩
        · cases hmissing
      exact ⟨_, by rw [List.reverse_cons, List.append_assoc]⟩
  obtain ⟨before, hbefore⟩ := hlast
  rw [hbefore, List.foldlM_append] at h
  obtain ⟨t₁, -, hensure⟩ := bind_eq_ok.1 h
  rw [List.foldlM_cons] at hensure
  obtain ⟨t₂, ht₂, hdone⟩ := bind_eq_ok.1 hensure
  cases hdone
  exact isFolder_of_ensureFolder ht₂

/-- A folder is found where it was. -/
theorem KeepsFolders.find_folder {t' : FileTree} {place : Place} {rights : FolderRights}
    (h : t.KeepsFolders t') (hfind : t.find p = .ok (place, .folder rights)) :
    ∃ rights', t'.find p = .ok (place, .folder rights') := by
  obtain ⟨asFolder, hlocate, hat, -⟩ := find_eq_ok_iff.1 hfind
  obtain ⟨rights', hat'⟩ := h.folder _ _ hat
  exact ⟨rights', find_eq_ok_iff.2 ⟨asFolder, h.locate hlocate, hat', fun _ => ⟨rights', rfl⟩⟩⟩

/-- A folder that is there needs nothing. -/
theorem createFolders_of_isFolder (h : t.isFolder p = true) : t.createFolders p = .ok t := by
  obtain ⟨place, rights, hfind⟩ := isFolder_iff.1 h
  obtain ⟨asFolder, hlocate, hat, -⟩ := find_eq_ok_iff.1 hfind
  have hcreate : t.createFolder p = .error .alreadyExists := by
    rw [createFolder, hlocate]
    simp only [bind, Except.bind, hat]
  obtain ⟨above, habove⟩ := exists_ancestors p p.text.length
  rw [createFolders]
  split
  · rfl
  · simp only [habove, List.takeWhile_cons, hcreate, Bool.false_eq_true, if_false, List.length_nil,
      List.drop_zero, List.take_succ_cons, List.take_zero, List.reverse_nil, List.append_nil,
      List.foldlM_cons, List.foldlM_nil, ensureFolder, h, if_true]
    rfl

/-! ## Pieces that lead nowhere else -/

/-- Pieces that name nothing lead nowhere else. -/
theorem follow_blanks (hplace : t.at? place = some (.folder rights))
    (hblanks : ∀ s ∈ blanks, IsBlankPiece s) (asFolder : Bool) :
    ∃ b, t.follow place asFolder blanks = .ok (place, b) := by
  induction blanks generalizing asFolder with
  | nil => exact ⟨asFolder, rfl⟩
  | cons s rest ih =>
    rw [follow, hplace]
    simp only
    rw [if_pos (hblanks s List.mem_cons_self)]
    exact ih (fun x hx => hblanks x (List.mem_cons_of_mem _ hx)) true

/-- Folders are entered one part of a path after the other. -/
theorem enter_append (hbefore : before ≠ []) (after : List String) : t.enter (before ++ after) =
    t.enter before >>= fun r => t.follow r.1 r.2 after := by
  obtain ⟨first, rest, rfl⟩ := List.exists_cons_of_ne_nil hbefore
  rw [enter, enter, List.cons_append, List.head?_cons, List.head?_cons]
  split
  · exact follow_append _ _ _ rest after
  · exact follow_append _ _ _ (first :: rest) after

/-- Pieces that name nothing stay where they begin. -/
theorem place_of_follow_blanks {r : Place × Bool} (hblanks : ∀ s ∈ blanks, IsBlankPiece s)
    (h : t.follow place asFolder blanks = .ok r) : r.1 = place := by
  induction blanks generalizing asFolder with
  | nil =>
    cases h
    rfl
  | cons s rest ih =>
    rw [follow] at h
    split at h
    · cases h
    · cases h
    · rw [if_pos (hblanks s List.mem_cons_self)] at h
      exact ih (fun x hx => hblanks x (List.mem_cons_of_mem _ hx)) h

/-- Blank pieces behind others lead to the same folder. -/
theorem enter_append_blanks (hbefore : before ≠ []) (hblanks : ∀ s ∈ blanks, IsBlankPiece s)
    (hplace : t.at? place = some (.folder rights)) :
    (∃ b, t.enter (before ++ blanks) = .ok (place, b)) ↔ ∃ b, t.enter before = .ok (place, b) := by
  rw [enter_append hbefore]
  constructor
  · rintro ⟨b, h⟩
    obtain ⟨⟨place', b'⟩, hbefore, hafter⟩ := bind_eq_ok.1 h
    obtain rfl : place = place' := place_of_follow_blanks hblanks hafter
    exact ⟨b', hbefore⟩
  · rintro ⟨b, h⟩
    obtain ⟨b', hb'⟩ := follow_blanks hplace hblanks b
    exact ⟨b', bind_eq_ok.2 ⟨_, h, hb'⟩⟩

/-- The pieces of a path that is not empty lead where the path leads. -/
theorem locate_eq_enter (hp : p.isEmpty = false) : t.locate p = t.enter p.pieces := by
  rw [locate_eq, hp, base, Path.steps, enter]
  rcases p.pieces_cases with ⟨he, -, -⟩ | ⟨-, ha, rest, -, hpieces⟩ | ⟨-, ha, s, rest, hs, hpieces⟩
  · rw [hp] at he
    cases he
  · simp [ha, hpieces]
  · simp [ha, hpieces, hs]

/-- Nothing is found under an empty path. -/
theorem isEmpty_of_find {r : Place × Entry} (h : t.find p = .ok r) : p.isEmpty = false := by
  obtain ⟨place, entry⟩ := r
  obtain ⟨asFolder, hlocate, -⟩ := find_eq_ok_iff.1 h
  rw [locate_eq] at hlocate
  split at hlocate
  · cases hlocate
  · next hempty => exact Bool.eq_false_iff.2 hempty

/-- The path of an entry of a folder leads to it. -/
theorem lies_join (h : t.find p = .ok (place, .folder rights)) (hslash : '/' ∉ name.toList)
    (hname : IsName name) : ∃ leading, t.Lies (p.join name) leading place name := by
  obtain ⟨asFolder, hlocate, hat, -⟩ := find_eq_ok_iff.1 h
  obtain ⟨leading, hjoin, hleading⟩ := p.pieces_join
  obtain ⟨hne, hpieces⟩ := hleading (isEmpty_of_find h)
  rw [locate_eq_enter (isEmpty_of_find h)] at hlocate
  refine ⟨leading, hjoin name hslash, hname, ⟨rights, hat⟩, ?_⟩
  rcases hpieces with hpieces | hpieces
  · exact ⟨asFolder, hpieces ▸ hlocate⟩
  · have hblank : ∀ s ∈ [""], IsBlankPiece s := by simp [IsBlankPiece]
    exact (enter_append_blanks hne hblank hat).1 ⟨asFolder, hpieces ▸ hlocate⟩

end FileTree

/-! ## Parents -/

namespace Path

variable {p : Path} {name : String} {leading : List String}

/-- The parent of a path that ends in a name, without the empty pieces before that name. -/
theorem parent?_of_pieces (hp : p.pieces = leading ++ [name]) (hname : IsName name) : p.parent? =
    if (leading.rdropWhile fun s => s = "" || s = ".").isEmpty &&
        (p.pieces.head? = some "." && !p.isAbsolute) then some ⟨"."⟩
    else some (ofPieces p.isAbsolute (leading.rdropWhile fun s => s = "" || s = ".")) := by
  rw [parent?, lastPart?_of_pieces hp hname]
  simp only
  rw [trimmedPieces_of_pieces hp hname, List.dropLast_concat]
  rfl

/-- A name alone has the empty parent. -/
theorem parent?_of_single (hp : p.pieces = [name]) (hname : IsName name) :
    p.parent? = some ⟨""⟩ := by
  have hnone : p.pieces = [] ++ [name] := hp
  have habsolute : p.isAbsolute = false := by
    rw [← Bool.not_eq_true, isAbsolute_of_pieces hnone hname]
    simp
  rw [parent?_of_pieces hnone hname, habsolute, hp]
  simp [hname.ne_here, ofPieces, Text.joinWith]

/-- A name behind other pieces has a parent with these pieces, but for pieces at their end that lead
nowhere else. -/
theorem exists_parent (hp : p.pieces = leading ++ [name]) (hname : IsName name)
    (hne : leading ≠ []) : ∃ parent core blanks blanks', p.parent? = some parent ∧
      parent.isEmpty = false ∧ core ≠ [] ∧ leading = core ++ blanks ∧
      parent.pieces = core ++ blanks' ∧ (∀ s ∈ blanks, IsBlankPiece s) ∧
      ∀ s ∈ blanks', IsBlankPiece s := by
  have hparent := parent?_of_pieces hp hname
  have hsplit := List.rdropWhile_append_rtakeWhile (p := fun s => s = "" || s = ".") (l := leading)
  have hblanks : ∀ s ∈ leading.rtakeWhile (fun s => s = "" || s = "."), IsBlankPiece s := by
    intro s hs
    simpa [IsBlankPiece] using List.mem_rtakeWhile_imp hs
  by_cases hcore : leading.rdropWhile (fun s => s = "" || s = ".") = []
  · -- Only blank pieces stand before the name: those of the root, or of the working folder.
    rw [hcore, List.nil_append] at hsplit
    rw [hsplit] at hblanks
    obtain ⟨first, rest, rfl⟩ := List.exists_cons_of_ne_nil hne
    have hrest : ∀ s ∈ rest, IsBlankPiece s := fun s hs => hblanks s (List.mem_cons_of_mem _ hs)
    have habsolute := isAbsolute_of_pieces hp hname
    rw [hcore] at hparent
    rcases hblanks first List.mem_cons_self with rfl | rfl
    · have hroot : p.parent? = some ⟨"/"⟩ := by
        rw [hparent, habsolute.2 rfl, Bool.not_true, Bool.and_false, Bool.and_false]
        rfl
      exact ⟨⟨"/"⟩, [""], rest, [""], hroot, rfl, by simp, rfl, rfl, hrest, by simp [IsBlankPiece]⟩
    · have hrelative : p.isAbsolute = false := by
        rw [← Bool.not_eq_true, habsolute]
        simp
      rw [hrelative, hp] at hparent
      exact ⟨⟨"."⟩, ["."], rest, [], hparent, rfl, by simp, rfl, rfl, hrest, by simp⟩
  · generalize hbefore : leading.rdropWhile (fun s => s = "" || s = ".") = before at *
    have hpieces : (⟨Text.joinWith "/" before⟩ : Path).pieces = before := by
      refine pieces_joinWith hcore fun s hs => slash_not_mem_piece (p := p) ?_
      rw [hp, ← hsplit]
      exact List.mem_append_left _ (List.mem_append_left _ hs)
    have hempty : (⟨Text.joinWith "/" before⟩ : Path).isEmpty = false := by
      rw [← Bool.not_eq_true, isEmpty_iff, hpieces]
      rintro rfl
      have hlast :=
        List.rdropWhile_last_not (fun s => s = "" || s = ".") leading (by simp [hbefore])
      simp [hbefore] at hlast
    refine ⟨⟨Text.joinWith "/" before⟩, before, _, [], ?_, hempty, hcore, hsplit.symm, ?_, hblanks,
      by simp⟩
    · rw [hparent, List.isEmpty_eq_false_iff.2 hcore, Bool.false_and, if_neg Bool.false_ne_true,
        ofPieces]
      have htext : (Text.joinWith "/" before).isEmpty = false := hempty
      simp only [htext, Bool.and_false, Bool.false_eq_true, if_false]
    · rw [hpieces, List.append_nil]

end Path

namespace FileTree

variable {t : FileTree} {p parent : Path} {place : Place} {name : String} {leading : List String}
  {rights : FolderRights}

/-- A name behind other pieces lies in the parent of its path. -/
theorem lies_of_parent (hp : p.pieces = leading ++ [name]) (hname : IsName name)
    (hne : leading ≠ []) (hparent : p.parent? = some parent)
    (hfind : t.find parent = .ok (place, .folder rights)) : t.Lies p leading place name := by
  obtain ⟨parent', core, blanks, blanks', hparent', -, hcore, rfl, hpieces, hblanks, hblanks'⟩ :=
    Path.exists_parent hp hname hne
  obtain rfl : parent = parent' := Option.some.inj (hparent.symm.trans hparent')
  obtain ⟨asFolder, hlocate, hat, -⟩ := find_eq_ok_iff.1 hfind
  rw [locate_eq_enter (isEmpty_of_find hfind), hpieces] at hlocate
  have henter := (enter_append_blanks hcore hblanks' hat).1 ⟨asFolder, hlocate⟩
  exact ⟨hp, hname, ⟨rights, hat⟩, (enter_append_blanks hcore hblanks hat).2 henter⟩

end FileTree

end SessionHost
