import SessionHost.Proofs.Settings.Rewriting
import SessionHost.Proofs.Settings.Saving
import SessionHost.Proofs.Text.Spelling

/-!
# Where a name can be saved

On a disk where no call fails for a reason of its own, a name can be saved in every folder that is
there or can be made, and it is there when the settings are loaded.  A file whose path has no folder
part would be written in the working folder; but its path has the empty parent, and the empty path
leads to no folder from which others could be kept out, so its name is never saved.

Main definitions:

- `Path.NamesFile`: a path whose last piece is a name.
- `FileTree.Ready`: a path at which a name can be saved.

Main results:

- Theorem `writeAtomically_sound`: writing succeeds in a folder that is there.
- Theorem `persist_ready`: a name is saved where a file is ready.
- Theorem `persist_sound`: whether a name is saved.
-/

namespace SessionHost

open Toml (Value)

variable {d d' : Disk} {t t₁ : FileTree} {p folder parent temporary : Path} {name text : String}
  {bytes content : List UInt8} {leading : List String} {inside place : Place} {n : Nat}
  {rights : FolderRights}

/-! ## Writing on a sound disk -/

/-- A temporary file can be made in a folder that is there. -/
theorem createTemporary_sound (h : DiskM.IsSound d)
    (hfolder : d.files.find folder = .ok (place, .folder rights)) :
    ∃ temporary d', createTemporary folder d = (.ok temporary, d') ∧ DiskM.IsSound d' := by
  obtain ⟨n, hpath, -⟩ := temporaryPath_eq folder d.files
  obtain ⟨leading, hlies⟩ :=
    FileTree.lies_join hfolder (slash_not_mem_temporaryName n) (isName_temporaryName n)
  rw [← hpath] at hlies
  obtain ⟨leading', inside, n', hlies', hplace, hnone⟩ := temporaryPath_new hlies.locate_eq
  obtain ⟨t, hwrite⟩ : ∃ t, d.files.write (temporaryPath folder d.files) [] 0o600 = .ok t :=
    FileTree.write_of_lies hlies' fun rights hat => by
      rw [← hplace, hnone] at hat
      cases hat
  obtain ⟨d', hcall, -, hsound⟩ := DiskM.call_sound h
    (fun t => (t.write (temporaryPath folder t) [] 0o600).map
      fun changed => (temporaryPath folder t, changed)) (DiskM.map_eq_ok.2 ⟨t, hwrite, rfl⟩)
  exact ⟨_, d', hcall, hsound⟩

/-- Writing succeeds in a folder that is there, where no folder is in the way. -/
theorem writeAtomically_sound (h : DiskM.IsSound d) (hlies : d.files.Lies p leading inside name)
    (hfolder : d.files.find (writingFolder p) = .ok (place, .folder rights))
    (hplain : ∀ rights, d.files.at? (inside ++ [name]) ≠ some (.folder rights))
    (bytes : List UInt8) :
    ∃ d', writeAtomically p bytes d = (.ok (), d') ∧ DiskM.IsSound d' ∧
      d'.files.read p = .ok bytes ∧ d.files.KeepsFolders d'.files := by
  obtain ⟨temporary, d₁, hnew, hsound₁⟩ := createTemporary_sound h hfolder
  obtain ⟨leading', inside', n, hmade, hnone, halters₁, hempty⟩ := createTemporary_eq_ok hnew
  obtain ⟨t₂, hwrite⟩ : ∃ t, d₁.files.write temporary bytes 0o600 = .ok t := by
    refine FileTree.write_of_lies (hmade.of_keeps halters₁.toKeepsFolders) fun rights hat => ?_
    obtain ⟨mode, hfile⟩ := hempty.file
    rw [hfile] at hat
    cases hat
  obtain ⟨d₂, hwrite', rfl, hsound₂⟩ :=
    DiskM.change_sound hsound₁ (·.write temporary bytes 0o600) hwrite
  obtain ⟨d₃, hwait, hfiles₃, hsound₃⟩ := DiskM.change_sound hsound₂ (fun t => .ok t) rfl
  have hfilled : Filled p bytes d temporary d₃ := ⟨hnew, hwrite', hwait⟩
  obtain ⟨leading', inside', n, hmade, hnone, halters, hholds⟩ := hfilled.holds
  obtain ⟨t₄, hmove⟩ : ∃ t, d₃.files.rename temporary p = .ok t := by
    refine FileTree.rename_of_lies hholds (hlies.of_keeps halters.toKeepsFolders)
      fun rights hat => ?_
    by_cases hsame : inside ++ [name] = inside' ++ [temporaryName n]
    · obtain ⟨mode, hfile⟩ := hholds.file
      rw [hsame, hfile] at hat
      cases hat
    · rw [halters.others _ (fun hmem => hsame (List.mem_singleton.1 hmem))] at hat
      exact hplain rights hat
  obtain ⟨d₄, hmove', rfl, hsound₄⟩ := DiskM.change_sound hsound₃ (·.rename temporary p) hmove
  obtain ⟨goal, -, halters', hthere⟩ := FileTree.alters_rename hholds hmove
  refine ⟨d₄, ?_, hsound₄, FileTree.read_iff_holds.2 ⟨goal, hthere⟩,
    halters.toKeepsFolders.trans halters'.toKeepsFolders⟩
  simp only [writeAtomically, bind]
  rw [DiskM.bind_of_ok hnew, discardOnFailure, DiskM.bind_of_ok hwrite', waitForDisk,
    DiskM.bind_of_ok hwait, DiskM.attempt_bind, hmove']
  rfl

/-! ## Folders on a sound disk -/

/-- On a sound disk the rights of a folder are restricted, and nothing else is touched. -/
theorem restrictToOwner_sound (h : DiskM.IsSound d)
    (hfind : d.files.find folder = .ok (place, .folder rights)) :
    ∃ d', restrictToOwner folder d = (.ok (), d') ∧ DiskM.IsSound d' ∧
      d.files.Keeps d'.files ∧ d'.files.Keeps d.files := by
  have hkeeps {d' : Disk} (hdone : restrictToOwner folder d = (.ok (), d')) :=
    keeps_restrictToOwner (fun place' entry hfind' => ⟨rights, by
      rw [hfind] at hfind'
      exact (Prod.mk.inj (Except.ok.inj hfind')).2.symm⟩) hdone
  obtain ⟨d₁, hlook, hfiles, hsound₁⟩ := DiskM.look_sound h (fun t => t.find folder) hfind
  by_cases hopen : (Entry.folder rights).isOpenToOthers = true
  · obtain ⟨t, hset⟩ : ∃ t, d₁.files.setMode folder 0o700 = .ok t := by
      rw [hfiles, FileTree.setMode, hfind]
      exact ⟨_, rfl⟩
    obtain ⟨d₂, hchange, -, hsound₂⟩ := DiskM.change_sound hsound₁ (·.setMode folder 0o700) hset
    have hdone : restrictToOwner folder d = (.ok (), d₂) := by
      simp only [restrictToOwner, bind, DiskM.bind_of_ok hlook]
      exact (congrFun (if_pos hopen) d₁).trans hchange
    exact ⟨d₂, hdone, hsound₂, hkeeps hdone⟩
  · have hdone : restrictToOwner folder d = (.ok (), d₁) := by
      simp only [restrictToOwner, bind, DiskM.bind_of_ok hlook]
      exact congrFun (if_neg hopen) d₁
    exact ⟨d₁, hdone, hsound₁, hkeeps hdone⟩

/-- A folder that is there or can be made is made ready. -/
theorem prepareFolder_sound (h : DiskM.IsSound d) (hparent : p.parent? = some parent)
    (hne : parent.isEmpty = false) (hcreate : d.files.createFolders parent = .ok t₁) :
    ∃ d', prepareFolder p d = (.ok (), d') ∧ DiskM.IsSound d' ∧ t₁.Keeps d'.files ∧
      d'.files.Keeps t₁ := by
  obtain ⟨d₁, hcall, rfl, hsound₁⟩ := DiskM.change_sound h (·.createFolders parent) hcreate
  obtain ⟨place, rights, hfind⟩ :=
    FileTree.isFolder_iff.1 (FileTree.isFolder_of_createFolders hcreate hne)
  obtain ⟨d₂, hdone, hsound₂, hkeeps⟩ := restrictToOwner_sound hsound₁ hfind
  refine ⟨d₂, ?_, hsound₂, hkeeps⟩
  simp only [prepareFolder, hparent, bind]
  rw [DiskM.bind_of_ok hcall, hdone]

/-- From the empty path nobody can be kept out. -/
theorem prepareFolder_of_empty (h : DiskM.IsSound d) (hparent : p.parent? = some ⟨""⟩) :
    ∃ d', prepareFolder p d = (.error (.ofKind .notFound), d') ∧ d'.files = d.files := by
  obtain ⟨d₁, hcall, hfiles₁, hsound₁⟩ := DiskM.change_sound h (·.createFolders ⟨""⟩) rfl
  have hnowhere : d₁.files.find ⟨""⟩ = .error .notFound := rfl
  obtain ⟨d₂, hlook, hfiles₂, -⟩ := DiskM.look_sound_error hsound₁ (·.find ⟨""⟩) hnowhere
  refine ⟨d₂, ?_, hfiles₂.trans hfiles₁⟩
  simp only [prepareFolder, hparent, bind]
  rw [DiskM.bind_of_ok hcall]
  simp only [restrictToOwner, bind]
  rw [DiskM.bind_of_error hlook]

/-! ## Texts on a sound disk -/

/-- What a file says does not depend on anything else. -/
theorem FileTree.Says.of_keeps (h : t.Says p text) (hkeeps : t.Keeps t₁) (hkeeps' : t₁.Keeps t) :
    t₁.Says p text := by
  cases h with
  | there hread htext => exact .there (hkeeps.read hread) htext
  | absent hnone =>
    refine .absent (Bool.eq_false_iff.2 fun hexists => ?_)
    rw [hkeeps'.pathExists hexists] at hnone
    cases hnone

/-- Where a text can be, no folder is in the way. -/
theorem FileTree.Says.plain (h : t.Says p text) (hlies : t.Lies p leading inside name)
    (rights : FolderRights) :
    t.at? (inside ++ [name]) ≠ some (.folder rights) := by
  intro hat
  cases h with
  | there hread htext =>
    obtain ⟨place, hholds⟩ := read_iff_holds.1 hread
    obtain ⟨mode, hfile⟩ := hholds.file
    rw [(Prod.mk.inj (locate_det rfl hlies.locate_eq hholds.locate_eq)).1, hfile] at hat
    cases hat
  | absent hnone =>
    rw [pathExists_of_locate hlies.locate_eq, hat] at hnone
    cases hnone

/-- On a sound disk a text is read. -/
theorem readText_sound (h : DiskM.IsSound d) (hread : d.files.read p = .ok bytes)
    (htext : Text.ofUtf8? bytes = some text) :
    ∃ d', DiskM.readText p d = (.ok text, d') ∧ d'.files = d.files ∧ DiskM.IsSound d' := by
  refine DiskM.look_sound h _ ?_
  simp only [hread, htext]

/-- On a sound disk the present text is read, if there is one. -/
theorem presentText_sound (h : DiskM.IsSound d) (hsaid : d.files.Says p text) :
    ∃ d', presentText p d = (.ok text, d') ∧ d'.files = d.files ∧ DiskM.IsSound d' := by
  obtain ⟨d₁, hlook, hfiles₁, hsound₁⟩ := DiskM.pathExists_sound h p
  simp only [presentText, bind]
  rw [DiskM.bind_of_ok hlook]
  cases hsaid with
  | there hread htext =>
    obtain ⟨place, mode, hfind⟩ := FileTree.read_eq_ok_iff.1 hread
    rw [if_pos (FileTree.pathExists_iff.2 ⟨_, hfind⟩)]
    obtain ⟨d₂, hdone, hfiles₂, hsound₂⟩ := readText_sound hsound₁ (hfiles₁ ▸ hread) htext
    exact ⟨d₂, hdone, hfiles₂.trans hfiles₁, hsound₂⟩
  | absent hnone =>
    rw [if_neg (Bool.eq_false_iff.1 hnone)]
    exact ⟨d₁, rfl, hfiles₁, hsound₁⟩

/-- The settings in a file that can be read. -/
theorem load_sound {s : Settings} (h : DiskM.IsSound d) (hread : d.files.read p = .ok bytes)
    (htext : Text.ofUtf8? bytes = some text) (hs : Settings.ofText? text = some s) :
    (Settings.load p d).1 = .ok (some s) := by
  obtain ⟨d₁, hlook, hfiles₁, hsound₁⟩ := DiskM.pathExists_sound h p
  obtain ⟨place, mode, hfind⟩ := FileTree.read_eq_ok_iff.1 hread
  rw [FileTree.pathExists_iff.2 ⟨_, hfind⟩] at hlook
  obtain ⟨d₂, hdone, -, -⟩ := readText_sound hsound₁ (hfiles₁ ▸ hread) htext
  simp only [Settings.load, hlook, hdone, hs]

/-! ## Settings with a name -/

/-- What is read beside the preferred runtime does not depend on it. -/
theorem ofMembers?_otherMembers {members : List (String × Value)} {s : Settings}
    (h : Settings.ofMembers? members = some s) :
    Settings.ofMembers? (otherMembers members) = some { s with defaultVersion := none } := by
  unfold Settings.ofMembers? fields? at h ⊢
  simp only [List.map_cons, List.map_nil] at h ⊢
  rw [isPassable_otherMembers (by simp), member?_otherMembers_self,
    member?_otherMembers (by decide), member?_otherMembers (by decide),
    member?_otherMembers (by decide), member?_otherMembers (by decide),
    member?_otherMembers (by decide)]
  cases hpassable : isPassable _ members with
  | false =>
    rw [hpassable] at h
    cases h
  | true =>
    rw [hpassable] at h
    simp only [if_true, Option.bind_eq_bind, Option.bind_eq_some_iff] at h ⊢
    obtain ⟨version, -, paths, hpaths, cwd, hcwd, profile, hprofile, developer, hdeveloper, console,
      hconsole, hs⟩ := h
    obtain rfl := Option.some.inj hs
    exact ⟨none, rfl, paths, hpaths, cwd, hcwd, profile, hprofile, developer, hdeveloper, console,
      hconsole, rfl⟩

/-- A text with a name has the settings of the text, and the name. -/
theorem ofText?_withDefaultVersion? {s : Settings} {changed : String}
    (hs : Settings.ofText? text = some s)
    (hchanged : withDefaultVersion? text name = some changed) :
    Settings.ofText? changed = some { s with defaultVersion := some name } := by
  obtain ⟨document, hread, hsettings⟩ := (rewritten_of_withDefaultVersion? hchanged).settings
  rw [Settings.ofText?, hread, Option.bind_some] at hs
  rw [hsettings, ofMembers?_otherMembers hs, Option.map_some]

/-! ## Saving on a sound disk -/

/-- The last piece of the path is a name. -/
def Path.NamesFile (p : Path) : Prop := ∃ leading file, p.pieces = leading ++ [file] ∧ IsName file

/-- A path without a folder in it cannot be saved to. -/
theorem persist_of_empty_parent (h : DiskM.IsSound d) (hparent : p.parent? = some ⟨""⟩)
    (name : String) : (persistDefaultVersion p name d).1 = .error (.ofKind .notFound) ∧
      (persistDefaultVersion p name d).2.files = d.files := by
  obtain ⟨d', hprepare, hfiles⟩ := prepareFolder_of_empty h hparent
  simp only [persistDefaultVersion, bind]
  rw [DiskM.bind_of_error hprepare]
  exact ⟨rfl, hfiles⟩

/-- A file that is not alone in its path lies in its parent, once that is ready. -/
theorem exists_ready (h : DiskM.IsSound d) (hp : p.NamesFile) (hparent : p.parent? ≠ some ⟨""⟩)
    (hfolder : d.files.createFolders (writingFolder p) = .ok t₁) :
    ∃ d' leading inside file place rights, prepareFolder p d = (.ok (), d') ∧ DiskM.IsSound d' ∧
      t₁.Keeps d'.files ∧ d'.files.Keeps t₁ ∧ d'.files.Lies p leading inside file ∧
      d'.files.find (writingFolder p) = .ok (place, .folder rights) := by
  obtain ⟨leading, file, hpieces, hfile⟩ := hp
  have hne : leading ≠ [] := by
    rintro rfl
    exact hparent (Path.parent?_of_single hpieces hfile)
  obtain ⟨parent, -, -, -, hsome, hempty, -⟩ := Path.exists_parent hpieces hfile hne
  have hwriting : writingFolder p = parent := by
    rw [writingFolder, hsome]
    simp only [hempty, Bool.false_eq_true, if_false]
  rw [hwriting] at hfolder ⊢
  obtain ⟨d', hprepare, hsound, hkeeps, hkeeps'⟩ := prepareFolder_sound h hsome hempty hfolder
  obtain ⟨place, rights, hfind⟩ :=
    FileTree.isFolder_iff.1 (FileTree.isFolder_of_createFolders hfolder hempty)
  obtain ⟨rights', hfind'⟩ := hkeeps.find_folder hfind
  exact ⟨d', leading, place, file, place, rights', hprepare, hsound, hkeeps, hkeeps',
    FileTree.lies_of_parent hpieces hfile hne hsome hfind', hfind'⟩

/-- A path that names a file in a folder that is there or can be made, and the text of that
file. -/
structure FileTree.Ready (t : FileTree) (p : Path) (text : String) : Prop where
  named : p.NamesFile
  parent : p.parent? ≠ some ⟨""⟩
  said : ∃ t₁, t.createFolders (writingFolder p) = .ok t₁ ∧ t₁.Says p text

/-- A name is saved in a file that is ready, which is ready for another one then. -/
theorem persist_ready {changed : String} (h : DiskM.IsSound d) (hready : d.files.Ready p text)
    (hchanged : withDefaultVersion? text name = some changed) :
    ∃ d', persistDefaultVersion p name d = (.ok (), d') ∧ DiskM.IsSound d' ∧
      d'.files.read p = .ok (Text.utf8Bytes changed) ∧ d'.files.Ready p changed := by
  obtain ⟨t₁, hfolder, hsaid⟩ := hready.said
  obtain ⟨d₁, leading, inside, file, place, rights, hprepare, hsound₁, hkeeps, hkeeps', hlies,
    hfind⟩ := exists_ready h hready.named hready.parent hfolder
  have hsaid₁ := hsaid.of_keeps hkeeps hkeeps'
  obtain ⟨d₂, hpresent, hfiles₂, hsound₂⟩ := presentText_sound hsound₁ hsaid₁
  have hplain := hsaid₁.plain hlies
  rw [← hfiles₂] at hlies hfind hplain
  obtain ⟨d₃, hwrite, hsound₃, hread, hfolders⟩ :=
    writeAtomically_sound hsound₂ hlies hfind hplain (Text.utf8Bytes changed)
  obtain ⟨rights', hfind'⟩ := hfolders.find_folder hfind
  refine ⟨d₃, ?_, hsound₃, hread, hready.named, hready.parent, d₃.files,
    FileTree.createFolders_of_isFolder (FileTree.isFolder_iff.2 ⟨place, rights', hfind'⟩),
    .there hread (Text.ofUtf8?_utf8Bytes changed)⟩
  simp only [persistDefaultVersion, bind]
  rw [DiskM.bind_of_ok hprepare, DiskM.bind_of_ok hpresent]
  simp only [hchanged]
  exact hwrite

/-- **Where a name can be saved.**  On a disk where no call fails for a reason of its own, a name
can be saved in every file whose folder is there or can be made, if it can be put into the text of
the file, and what is loaded then are the settings with the name; but never in a file whose path has
no folder part. -/
theorem persist_sound (hp : p.NamesFile) (hfolder : t.createFolders (writingFolder p) = .ok t₁)
    (hsaid : t₁.Says p text) :
    (p.parent? = some ⟨""⟩ → writingFolder p = ⟨"."⟩ ∧
      (persistDefaultVersion p name (.sound t)).1 = .error (.ofKind .notFound) ∧
      (persistDefaultVersion p name (.sound t)).2.files = t) ∧
    (p.parent? ≠ some ⟨""⟩ → withDefaultVersion? text name = none →
      (persistDefaultVersion p name (.sound t)).1 = .error (.ofKind .invalidData) ∧
      (persistDefaultVersion p name (.sound t)).2.files.Says p text) ∧
    (p.parent? ≠ some ⟨""⟩ → ∀ changed, withDefaultVersion? text name = some changed →
      (persistDefaultVersion p name (.sound t)).1 = .ok () ∧
      (persistDefaultVersion p name (.sound t)).2.files.read p = .ok (Text.utf8Bytes changed) ∧
      ∀ s, Settings.ofText? text = some s →
        (Settings.load p (persistDefaultVersion p name (.sound t)).2).1 =
          .ok (some { s with defaultVersion := some name })) := by
  have hsound := DiskM.isSound_sound t
  refine ⟨fun hparent => ⟨?_, persist_of_empty_parent hsound hparent name⟩, fun hparent hnone => ?_,
    fun hparent changed hchanged => ?_⟩
  · rw [writingFolder, hparent]
    rfl
  · obtain ⟨d₁, leading, inside, file, place, rights, hprepare, hsound₁, hkeeps, hkeeps', -, -⟩ :=
      exists_ready hsound hp hparent hfolder
    obtain ⟨d₂, hpresent, hfiles₂, -⟩ := presentText_sound hsound₁ (hsaid.of_keeps hkeeps hkeeps')
    simp only [persistDefaultVersion, bind]
    rw [DiskM.bind_of_ok hprepare, DiskM.bind_of_ok hpresent]
    simp only [hnone]
    exact ⟨rfl, hfiles₂ ▸ hsaid.of_keeps hkeeps hkeeps'⟩
  · obtain ⟨d₃, hdone, hsound₃, hread, -⟩ :=
      persist_ready hsound ⟨hp, hparent, t₁, hfolder, hsaid⟩ hchanged
    rw [hdone]
    exact ⟨rfl, hread, fun s hs => load_sound hsound₃ hread (Text.ofUtf8?_utf8Bytes changed)
      (ofText?_withDefaultVersion? hs hchanged)⟩

/-- On a disk with nothing on it, a name is saved in folders that are made for it, and not in the
working folder. -/
theorem persist_sound_empty :
    (persistDefaultVersion ⟨"config.toml"⟩ "A" (.sound (.empty []))).1 =
        .error (.ofKind .notFound) ∧
      (Settings.load ⟨"/x/y/config.toml"⟩
        (persistDefaultVersion ⟨"/x/y/config.toml"⟩ "A" (.sound (.empty []))).2).1 =
        .ok (some { defaultVersion := some "A" }) := by
  have hfile : IsName "config.toml" := ⟨by decide, by decide, by decide⟩
  have halone : Path.NamesFile ⟨"config.toml"⟩ := ⟨[], "config.toml", by decide +kernel, hfile⟩
  have hbelow : Path.NamesFile ⟨"/x/y/config.toml"⟩ :=
    ⟨["", "x", "y"], "config.toml", by decide +kernel, hfile⟩
  -- The working folder is there, and holds no file.
  have hthere : (FileTree.empty []).createFolders (writingFolder ⟨"config.toml"⟩) =
      .ok (.empty []) :=
    FileTree.createFolders_of_isFolder (by decide +kernel)
  have hnothing : (FileTree.empty []).Says ⟨"config.toml"⟩ "" := .absent (by decide +kernel)
  -- The folders below the root are made, and hold no file.
  obtain ⟨t₁, hmade, hsaid⟩ :
      ∃ t₁, (FileTree.empty []).createFolders (writingFolder ⟨"/x/y/config.toml"⟩) = .ok t₁ ∧
        t₁.Says ⟨"/x/y/config.toml"⟩ "" := by
    have hany : (((FileTree.empty []).createFolders
        (writingFolder ⟨"/x/y/config.toml"⟩)).toOption.any
          fun t => !t.pathExists ⟨"/x/y/config.toml"⟩) = true := by
      decide +kernel
    cases hmade : (FileTree.empty []).createFolders (writingFolder ⟨"/x/y/config.toml"⟩) with
    | error kind =>
      rw [hmade] at hany
      cases hany
    | ok t₁ =>
      rw [hmade] at hany
      exact ⟨t₁, rfl, .absent (by simpa [Except.toOption] using hany)⟩
  obtain ⟨changed, hchanged⟩ := Option.isSome_iff_exists.1
    (show (withDefaultVersion? "" "A").isSome = true by decide +kernel)
  have hsettings : Settings.ofText? "" = some {} := rfl
  refine ⟨((persist_sound halone hthere hnothing).1 (by decide +kernel)).2.1, ?_⟩
  exact ((persist_sound hbelow hmade hsaid).2.2 (by decide +kernel) changed hchanged).2.2 {}
    hsettings

end SessionHost
