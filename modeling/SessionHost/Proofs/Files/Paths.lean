import SessionHost.Proofs.Files.Trees
import SessionHost.Proofs.Text.Spelling

/-!
# Paths of neighbours

A path that leads to a file ends in the file's name, and what stands before it is followed to the
file's folder.  A path that differs in its last piece alone leads to a neighbour in that folder.

Main definitions:

- `IsName`: a piece that names an entry.
- `FileTree.base`, `Path.steps`: where a path begins, and what is followed from there.
- `FileTree.Lies`: a path leads to a name in a folder.
- `HasExtension`: a name has an extension.

Main results:

- Theorem `FileTree.locate_det`: where a path leads depends on its text, wherever it leads at all.
- Theorem `FileTree.Lies.neighbour`: what leads to a neighbour.
- Theorems `Path.pieces_join`, `Path.pieces_withExtension`: paths of neighbours.
-/

namespace SessionHost

/-- The piece names an entry of a folder. -/
structure IsName (s : String) : Prop where
  ne_empty : s ≠ ""
  ne_here : s ≠ "."
  ne_up : s ≠ ".."

/-! ## Pieces -/

namespace Path

variable {p q : Path} {s name : String} {leading : List String}

/-- Every path has a piece, if only an empty one. -/
theorem pieces_ne_nil (p : Path) : p.pieces ≠ [] := by
  rw [pieces, Ne, List.map_eq_nil_iff]
  exact Text.splitAt_ne_nil _ _

/-- No piece has a slash in it. -/
theorem slash_not_mem_piece (h : s ∈ p.pieces) : '/' ∉ s.toList := by
  obtain ⟨cs, hcs, rfl⟩ := List.mem_map.1 h
  rw [String.toList_ofList]
  exact Text.not_mem_of_mem_splitAt hcs

/-- Pieces without separators are those of the path that they spell. -/
theorem pieces_joinWith {ps : List String} (hne : ps ≠ []) (h : ∀ s ∈ ps, '/' ∉ s.toList) :
    (⟨Text.joinWith "/" ps⟩ : Path).pieces = ps := by
  induction ps with
  | nil => exact absurd rfl hne
  | cons s rest ih =>
    have hs := Text.splitAt_of_not_mem (h s List.mem_cons_self)
    cases rest with
    | nil => simp [pieces, Text.joinWith, hs]
    | cons t rest =>
      have hrest := ih (List.cons_ne_nil _ _) fun x hx => h x (List.mem_cons_of_mem _ hx)
      rw [pieces] at hrest ⊢
      rw [Text.joinWith.eq_3 _ _ _ (List.cons_ne_nil _ _), String.toList_append,
        String.toList_append, List.append_assoc, show "/".toList = ['/'] from rfl,
        List.singleton_append, Text.splitAt_append, hs, List.map_append, hrest, List.map_singleton,
        String.ofList_toList, List.singleton_append]

/-- How a path begins. -/
theorem pieces_cases (p : Path) :
    (p.isEmpty = true ∧ p.isAbsolute = false ∧ p.pieces = [""]) ∨
      (p.isEmpty = false ∧ p.isAbsolute = true ∧ ∃ rest, rest ≠ [] ∧ p.pieces = "" :: rest) ∨
      (p.isEmpty = false ∧ p.isAbsolute = false ∧ ∃ s rest, s ≠ "" ∧ p.pieces = s :: rest) := by
  obtain ⟨text⟩ := p
  have hempty : (⟨text⟩ : Path).isEmpty = text.toList.isEmpty := by
    rw [Bool.eq_iff_iff, isEmpty, String.isEmpty_iff, List.isEmpty_iff, String.toList_eq_nil_iff]
  simp only [hempty, isAbsolute, Text.startsWith, pieces, show "/".toList = ['/'] from rfl]
  cases text.toList with
  | nil => exact .inl ⟨rfl, rfl, rfl⟩
  | cons c cs =>
    by_cases hc : c = '/'
    · refine .inr (.inl ⟨rfl, by simp [hc], _, ?_, by rw [Text.splitAt, if_pos hc]; rfl⟩)
      rw [Ne, List.map_eq_nil_iff]
      exact Text.splitAt_ne_nil _ _
    · obtain ⟨part, parts, hparts⟩ := List.exists_cons_of_ne_nil (Text.splitAt_ne_nil '/' cs)
      have hslash : ('/' == c) = false := beq_false_of_ne (Ne.symm hc)
      refine .inr (.inr ⟨rfl, by rw [List.isPrefixOf, hslash, Bool.false_and],
        String.ofList (c :: part), _, ?_, by rw [Text.splitAt_cons_of_ne hc hparts]; rfl⟩)
      rw [Ne, ← String.toList_inj, String.toList_ofList]
      exact List.cons_ne_nil _ _

/-- A path is empty if its one piece is. -/
theorem isEmpty_iff : p.isEmpty = true ↔ p.pieces = [""] := by
  rcases p.pieces_cases with ⟨he, -, hp⟩ | ⟨he, -, rest, hrest, hp⟩ | ⟨he, -, s, rest, hs, hp⟩
  · simp [he, hp]
  · simp [he, hp, hrest]
  · simp [he, hp, hs]

/-- A path is absolute if an empty piece is the first of several. -/
theorem isAbsolute_iff : p.isAbsolute = true ↔ p.pieces.head? = some "" ∧ p.pieces ≠ [""] := by
  rcases p.pieces_cases with ⟨-, ha, hp⟩ | ⟨-, ha, rest, hrest, hp⟩ | ⟨-, ha, s, rest, hs, hp⟩
  · simp [ha, hp]
  · simp [ha, hp, hrest]
  · simp [ha, hp, hs]

/-! ## Last pieces -/

section Named

variable (hp : p.pieces = leading ++ [name]) (hname : IsName name)

include hp hname

/-- A last piece that is a name is the last part. -/
theorem lastPart?_of_pieces : p.lastPart? = some (.name name) := by
  have hpart : partOf? name = some (.name name) := by
    rw [partOf?, if_neg (not_or.2 ⟨hname.ne_empty, hname.ne_here⟩), if_neg hname.ne_up]
  have hinner : p.pieces.filterMap partOf? = leading.filterMap partOf? ++ [.name name] := by
    rw [hp, List.filterMap_append, List.filterMap_cons_some hpart, List.filterMap_nil]
  rw [lastPart?, parts, hinner]
  split
  · rw [← List.cons_append, List.getLast?_concat]
  · split
    · rw [← List.cons_append, List.getLast?_concat]
    · rw [List.getLast?_concat]

theorem pieces_ne_single : p.pieces ≠ [""] := by
  rw [hp]
  cases leading with
  | nil => simpa using hname.ne_empty
  | cons => simp

/-- Before a name, a path is absolute if its first piece is empty. -/
theorem isAbsolute_of_pieces : p.isAbsolute = true ↔ leading.head? = some "" := by
  rw [isAbsolute_iff, and_iff_left (pieces_ne_single hp hname), hp]
  cases leading with
  | nil => simpa using hname.ne_empty
  | cons => simp

/-- Nothing is trimmed behind a name. -/
theorem trimmedPieces_of_pieces : p.trimmedPieces = leading ++ [name] := by
  rw [trimmedPieces, hp, List.reverse_concat,
    List.dropWhile_cons_of_neg (by simp [hname.ne_empty, hname.ne_here]), List.reverse_cons,
    List.reverse_reverse]

end Named

end Path

/-! ## Following paths -/

/-- What is followed from the place where the path begins. -/
def Path.steps (p : Path) : List String := if p.isAbsolute then p.pieces.drop 1 else p.pieces

namespace FileTree

variable {t t' : FileTree} {p q : Path} {place folder : Place} {name other : String}
  {asFolder : Bool} {before leading : List String} {r r' : Place × Bool}

/-- The place where the path begins. -/
def base (t : FileTree) (p : Path) : Place := if p.isAbsolute then [] else t.workingFolder

/-- A path leads from its base step by step, if it is not empty. -/
theorem locate_eq (t : FileTree) (p : Path) : t.locate p =
    if p.isEmpty then .error .notFound else t.follow (t.base p) true p.steps := by
  rw [locate, base, Path.steps]
  split
  · rfl
  · split <;> rfl

/-- Steps are taken one part after the other. -/
theorem follow_append (t : FileTree) (place : Place) (asFolder : Bool)
    (before after : List String) :
    t.follow place asFolder (before ++ after) =
      t.follow place asFolder before >>= fun r => t.follow r.1 r.2 after := by
  induction before generalizing place asFolder with
  | nil => rfl
  | cons piece rest ih =>
    rw [List.cons_append, follow, follow]
    split
    · rfl
    · rfl
    · split
      · exact ih _ _
      · split
        · exact ih _ _
        · exact ih _ _

/-- Where pieces lead depends on them, wherever they lead at all. -/
theorem follow_det (h : t.follow place asFolder before = .ok r)
    (h' : t'.follow place asFolder before = .ok r') : r = r' := by
  induction before generalizing place asFolder with
  | nil =>
    cases h
    cases h'
    rfl
  | cons piece rest ih =>
    rw [follow] at h h'
    split at h
    · cases h
    · cases h
    · split at h'
      · cases h'
      · cases h'
      · split at h
        · next hpiece =>
          rw [if_pos hpiece] at h'
          exact ih h h'
        · next hpiece =>
          rw [if_neg hpiece] at h'
          split at h
          · next hup =>
            rw [if_pos hup] at h'
            exact ih h h'
          · next hup =>
            rw [if_neg hup] at h'
            exact ih h h'

/-- Where a path leads depends on its text, wherever it leads at all. -/
theorem locate_det (hworking : t'.workingFolder = t.workingFolder) (h : t.locate p = .ok r)
    (h' : t'.locate p = .ok r') : r = r' := by
  rw [locate_eq] at h h'
  split at h
  · cases h
  · next hempty =>
    rw [if_neg hempty] at h'
    have hbase : t'.base p = t.base p := by rw [base, base, hworking]
    rw [hbase] at h'
    exact follow_det h h'

/-- The last piece leads to an entry that need not be a folder exactly if it is a name in a
folder. -/
theorem follow_last_iff : t.follow folder asFolder [name] = .ok (place, false) ↔
    IsName name ∧ (∃ rights, t.at? folder = some (.folder rights)) ∧ place = folder ++ [name] := by
  constructor
  · intro h
    rw [follow] at h
    split at h
    · cases h
    · cases h
    · next rights hfolder =>
      split at h
      · cases h
      · next hblank =>
        split at h
        · cases h
        · next hup =>
          cases h
          exact ⟨⟨fun hs => hblank (.inl hs), fun hs => hblank (.inr hs), hup⟩,
            ⟨rights, hfolder⟩, rfl⟩
  · rintro ⟨hname, ⟨rights, hfolder⟩, rfl⟩
    rw [follow, hfolder]
    simp only
    rw [if_neg (not_or.2 ⟨hname.ne_empty, hname.ne_here⟩), if_neg hname.ne_up]
    rfl

/-- Where the pieces before the last one lead. -/
def enter (t : FileTree) (leading : List String) : Except ErrorKind (Place × Bool) :=
  if leading.head? = some "" then t.follow [] true (leading.drop 1)
  else t.follow t.workingFolder true leading

/-- The last step of a path goes from its folder to its name. -/
theorem locate_of_pieces (hp : p.pieces = leading ++ [name]) (hname : IsName name) :
    t.locate p = t.enter leading >>= fun r => t.follow r.1 r.2 [name] := by
  have habsolute := Path.isAbsolute_of_pieces hp hname
  rw [locate_eq, if_neg (mt Path.isEmpty_iff.1 (Path.pieces_ne_single hp hname)), base,
    Path.steps, enter]
  by_cases hhead : leading.head? = some ""
  · rw [if_pos (habsolute.2 hhead), if_pos (habsolute.2 hhead), if_pos hhead, hp]
    cases leading with
    | nil => cases hhead
    | cons first rest => exact follow_append _ _ _ rest [name]
  · rw [if_neg (mt habsolute.1 hhead), if_neg (mt habsolute.1 hhead), if_neg hhead, hp]
    exact follow_append _ _ _ leading [name]

/-! ## Neighbours -/

/-- The path leads to a name in a folder, behind the pieces that lead to the folder. -/
structure Lies (t : FileTree) (p : Path) (leading : List String) (folder : Place) (name : String) :
    Prop where
  pieces_eq : p.pieces = leading ++ [name]
  isName : IsName name
  isFolder : ∃ rights, t.at? folder = some (.folder rights)
  enter_eq : ∃ asFolder, t.enter leading = .ok (folder, asFolder)

/-- A path that lies in a folder leads to its name there. -/
theorem Lies.locate_eq (h : t.Lies p leading folder name) :
    t.locate p = .ok (folder ++ [name], false) := by
  obtain ⟨asFolder, henter⟩ := h.enter_eq
  rw [locate_of_pieces h.pieces_eq h.isName]
  exact bind_eq_ok.2 ⟨_, henter, follow_last_iff.2 ⟨h.isName, h.isFolder, rfl⟩⟩

/-- What leads to a neighbour. -/
theorem Lies.neighbour (h : t.Lies p leading folder name) (hq : q.pieces = leading ++ [other])
    (hother : IsName other) : t.Lies q leading folder other :=
  ⟨hq, hother, h.isFolder, h.enter_eq⟩

/-- A path exists if something is where it leads. -/
theorem pathExists_of_locate (h : t.locate p = .ok (place, false)) :
    t.pathExists p = (t.at? place).isSome := by
  rw [pathExists, find, h]
  simp only [bind, Except.bind]
  cases t.at? place with
  | none => rfl
  | some e => cases e <;> rfl

/-- A path with a last piece in its steps. -/
theorem exists_steps_concat (p : Path) : ∃ way name, p.steps = way ++ [name] ∧
    ∃ leading, p.pieces = leading ++ [name] := by
  have hne : p.steps ≠ [] := by
    rw [Path.steps]
    rcases p.pieces_cases with ⟨-, ha, hp⟩ | ⟨-, ha, rest, hrest, hp⟩ | ⟨-, ha, s, rest, -, hp⟩
    · simp [ha, hp]
    · simp [ha, hp, hrest]
    · simp [ha, hp]
  have hsuffix : p.steps <:+ p.pieces := by
    rw [Path.steps]
    split
    · exact List.drop_suffix _ _
    · exact List.suffix_rfl
  obtain ⟨way, name, hway⟩ := (List.eq_nil_or_concat p.steps).resolve_left hne
  obtain ⟨front, hfront⟩ := hsuffix
  rw [List.concat_eq_append] at hway
  exact ⟨way, name, hway, front ++ way, by rw [← hfront, hway, List.append_assoc]⟩

/-- A path that need not lead to a folder leads to a name in one. -/
theorem exists_lies (h : t.locate p = .ok (place, false)) :
    ∃ leading folder name, t.Lies p leading folder name ∧ place = folder ++ [name] := by
  obtain ⟨way, name, hway, leading, hp⟩ := exists_steps_concat p
  have hname : IsName name := by
    rw [FileTree.locate_eq] at h
    split at h
    · cases h
    · rw [hway, follow_append] at h
      obtain ⟨r, -, hlast⟩ := bind_eq_ok.1 h
      exact (follow_last_iff.1 hlast).1
  rw [locate_of_pieces hp hname] at h
  obtain ⟨⟨folder, asFolder⟩, henter, hlast⟩ := bind_eq_ok.1 h
  obtain ⟨-, hfolder, rfl⟩ := follow_last_iff.1 hlast
  exact ⟨leading, folder, name, ⟨hp, hname, hfolder, asFolder, henter⟩, rfl⟩

/-- What leads to a place leads there in every tree with the same folders. -/
theorem Lies.of_keeps (h : t.Lies p leading folder name) (hkeeps : t.KeepsFolders t') :
    t'.Lies p leading folder name := by
  obtain ⟨rights, hfolder⟩ := h.isFolder
  obtain ⟨asFolder, henter⟩ := h.enter_eq
  refine ⟨h.pieces_eq, h.isName, hkeeps.folder _ _ hfolder, asFolder, ?_⟩
  rw [enter] at henter ⊢
  rw [hkeeps.workingFolder]
  split at henter
  · next hhead =>
    rw [if_pos hhead]
    exact hkeeps.follow henter
  · next hhead =>
    rw [if_neg hhead]
    exact hkeeps.follow henter

end FileTree

/-! ## Paths of neighbours -/

/-- A file name with an extension: something stands before a dot, and the extension behind it. -/
def HasExtension (extension name : String) : Prop :=
  ∃ stem ≠ [], name.toList = stem ++ '.' :: extension.toList

/-- A name has an extension if it ends in a dot and the extension, with something before. -/
theorem hasExtension_iff {extension name : String} : HasExtension extension name ↔
    '.' :: extension.toList <:+ name.toList ∧ name.toList ≠ '.' :: extension.toList := by
  constructor
  · rintro ⟨stem, hne, h⟩
    exact ⟨⟨stem, h.symm⟩, fun heq => hne (List.append_left_eq_self.1 (h.symm.trans heq))⟩
  · rintro ⟨⟨stem, h⟩, hne⟩
    refine ⟨stem, ?_, h.symm⟩
    rintro rfl
    exact hne h.symm

instance (extension name : String) : Decidable (HasExtension extension name) :=
  decidable_of_iff' _ hasExtension_iff

namespace Path

variable {p : Path} {name other extension : String} {leading : List String}

/-- A text without slashes does not begin with one. -/
theorem startsWith_slash_of_not_mem (h : '/' ∉ name.toList) : Text.startsWith name "/" = false := by
  rw [Text.startsWith, show "/".toList = ['/'] from rfl]
  cases hname : name.toList with
  | nil => rfl
  | cons c cs =>
    rw [hname, List.mem_cons, not_or] at h
    rw [List.isPrefixOf, beq_false_of_ne h.1, Bool.false_and]

/-- Entries of one folder have paths that differ in their last piece alone; before it stand the
pieces of the folder, but for an empty one behind a separator at its end. -/
theorem pieces_join (folder : Path) : ∃ leading,
    (∀ name, '/' ∉ name.toList → (folder.join name).pieces = leading ++ [name]) ∧
      (folder.isEmpty = false → leading ≠ [] ∧
        (folder.pieces = leading ∨ folder.pieces = leading ++ [""])) := by
  have hslash : "/".toList = ['/'] := rfl
  by_cases hempty : folder.isEmpty = true
  · refine ⟨[], fun name hname => ?_, fun h => absurd hempty (by simp [h])⟩
    rw [join, hempty, Bool.true_or, if_pos rfl, pieces, Text.splitAt_of_not_mem hname,
      List.map_singleton, String.ofList_toList, List.nil_append]
  · have hjoin (name : String) (hname : '/' ∉ name.toList) : folder.join name =
        if Text.endsWith folder.text "/" then ⟨folder.text ++ name⟩
        else ⟨folder.text ++ "/" ++ name⟩ := by
      rw [join, Bool.eq_false_iff.2 hempty, startsWith_slash_of_not_mem hname]
      rfl
    by_cases hends : Text.endsWith folder.text "/" = true
    · obtain ⟨front, hfront⟩ := List.isSuffixOf_iff_suffix.1 hends
      refine ⟨(Text.splitAt '/' front).map String.ofList, fun name hname => ?_, fun _ => ⟨?_, ?_⟩⟩
      · rw [hjoin name hname, if_pos hends, pieces, String.toList_append, ← hfront, hslash,
          List.append_assoc, List.singleton_append, Text.splitAt_append,
          Text.splitAt_of_not_mem hname, List.map_append, List.map_singleton, String.ofList_toList]
      · rw [Ne, List.map_eq_nil_iff]
        exact Text.splitAt_ne_nil _ _
      · right
        rw [pieces, ← hfront, hslash, Text.splitAt_append, List.map_append]
        rfl
    · refine ⟨folder.pieces, fun name hname => ?_, fun _ => ⟨folder.pieces_ne_nil, .inl rfl⟩⟩
      rw [hjoin name hname, if_neg hends, pieces, String.toList_append, String.toList_append,
        hslash, List.append_assoc, List.singleton_append, Text.splitAt_append,
        Text.splitAt_of_not_mem hname, List.map_append, List.map_singleton, String.ofList_toList,
        pieces]

end Path

end SessionHost
