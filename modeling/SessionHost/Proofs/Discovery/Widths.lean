import SessionHost.Discovery.Finder
import SessionHost.Proofs.Files.Paths
import SessionHost.Proofs.Text.Endings

/-!
# The Windows PowerShell of the other width

A Windows host of 64 bits has its Windows PowerShell twice, and a process sees the one of the other
width in a system folder of another name.  The path of that one is mapped to the path of the one of
the process's own width, in whatever letter case it is written, and every other path stays.  However
the Windows folder is written, the names of the two system folders end in different characters, and
lower-casing keeps them apart; so nothing is mapped twice.

Main definitions:

- `windowsProgram`: the Windows PowerShell below a system folder of the Windows folder.
- `otherFolder?`: the name of the system folder of the other width.
- `Finder.IsOther`, `Finder.IsNative`: the paths of the two programs.

Main results:

- Theorem `equalIgnoringCase_windowsProgram`: programs in system folders whose names end in
  different plain characters differ in more than letter case.
- Theorem `Finder.nativePath_narrow`: which paths are mapped, and where to.
-/

namespace SessionHost

/-! ## Joined paths -/

namespace Path

variable {name below : String}

/-- What is looked for below a folder stands at the end of the path. -/
theorem join_text (folder : Path) (h : '/' ∉ name.toList) :
    ∃ front, (folder.join name).text = front ++ name := by
  rw [join, startsWith_slash_of_not_mem h, Bool.or_false]
  split
  · exact ⟨"", (String.empty_append).symm⟩
  · split
    · exact ⟨folder.text, rfl⟩
    · exact ⟨folder.text ++ "/", rfl⟩

/-- Behind a name stands a separator, and then what is looked for below it. -/
theorem join_join_text (folder : Path) (hne : name ≠ "") (hname : '/' ∉ name.toList)
    (h : '/' ∉ below.toList) :
    ((folder.join name).join below).text = (folder.join name).text ++ "/" ++ below := by
  obtain ⟨front, hfront⟩ := folder.join_text hname
  have hempty : (folder.join name).isEmpty = false := by
    simp [isEmpty, hfront, hne]
  have hends : Text.endsWith (folder.join name).text "/" = false := by
    rw [Bool.eq_false_iff, Ne, Text.endsWith, List.isSuffixOf_iff_suffix, hfront,
      String.toList_append]
    intro hsuffix
    rcases List.eq_nil_or_concat name.toList with hnil | ⟨init, c, hinit⟩
    · exact hne (String.toList_eq_nil_iff.1 hnil)
    · change [] ++ ['/'] <:+ _ at hsuffix
      rw [hinit, List.concat_eq_append, ← List.append_assoc] at hsuffix
      obtain ⟨rfl, -⟩ := Text.concat_suffix_concat.1 hsuffix
      exact hname (by simp [hinit])
  rw [join, hempty, startsWith_slash_of_not_mem h, hends]
  rfl

end Path

namespace Discovery

variable {windows : Path} {name name' : String} {c c' : Char}

/-! ## The two programs -/

/-- The Windows PowerShell below a system folder of the Windows folder. -/
def windowsProgram (windows : Path) (name : String) : Path :=
  (((windows.join name).join "WindowsPowerShell").join "v1.0").join "powershell.exe"

/-- What stands behind the name of the system folder, in small letters. -/
def programTail : List Char := "/windowspowershell/v1.0/powershell.exe".toList

/-- The character is the last one of a name, as a small letter. -/
def NameEnds (name : String) (c : Char) : Prop :=
  '/' ∉ name.toList ∧ [c] <:+ name.toList.map Char.toLower

instance (name : String) (c : Char) : Decidable (NameEnds name c) :=
  inferInstanceAs (Decidable (_ ∧ _))

theorem endsIn_windowsProgram (windows : Path) (h : NameEnds name c) :
    Text.EndsIn (c :: programTail) (windowsProgram windows name).text := by
  obtain ⟨hslash, hc⟩ := h
  have hne : name ≠ "" := by
    rintro rfl
    simp at hc
  obtain ⟨front, hfront⟩ := windows.join_text hslash
  have htext : (windowsProgram windows name).text =
      front ++ name ++ "/WindowsPowerShell/v1.0/powershell.exe" := by
    rw [windowsProgram, Path.join_join_text _ (by decide) (by decide) (by decide),
      Path.join_join_text _ (by decide) (by decide) (by decide),
      Path.join_join_text _ hne hslash (by decide), hfront]
    simp only [String.append_assoc]
    rfl
  rw [Text.EndsIn, htext, String.toList_append, String.toList_append, List.map_append,
    List.map_append]
  obtain ⟨init, hinit⟩ := hc
  exact ⟨front.toList.map Char.toLower ++ init, by rw [← hinit]; simp; rfl⟩

/-- Programs in system folders whose names end in different plain characters differ in more than
letter case, however the Windows folder is written. -/
theorem equalIgnoringCase_windowsProgram (windows windows' : Path) (h : NameEnds name c)
    (h' : NameEnds name' c') (hc : Text.IsPlainSmall c) (hc' : Text.IsPlainSmall c')
    (hne : c ≠ c') : Text.equalIgnoringCase (windowsProgram windows name).text
      (windowsProgram windows' name').text = false := by
  have htail : ∀ x ∈ programTail, Text.IsPlainSmall x :=
    List.forall_iff_forall_mem.1 (by decide)
  rw [Bool.eq_false_iff]
  intro hequal
  have hends := (endsIn_windowsProgram windows h).eq_of_equalIgnoringCase
    (endsIn_windowsProgram windows' h') (List.forall_mem_cons.2 ⟨hc, htail⟩)
    (List.forall_mem_cons.2 ⟨hc', htail⟩) rfl hequal
  exact hne (List.cons.inj hends).1

/-! ## Mapping paths -/

/-- The system folder in which a process sees the programs of the other width, on a host that has
two widths. -/
def otherFolder? (p : Platform) : Option String :=
  if p.os.isWindows && p.systemIs64Bit then
    some (if p.processIs64Bit then "SysWOW64" else "Sysnative")
  else
    none

namespace Finder

variable (f : Finder) (p : Path)

/-- Up to letter case, the path is the one of the Windows PowerShell of the other width. -/
def IsOther : Prop :=
  ∃ windows name, f.environment.windowsFolder = some windows ∧
    otherFolder? f.platform = some name ∧
    Text.equalIgnoringCase (windowsProgram windows name).text p.text = true

/-- The path is the one of the Windows PowerShell of this process's width. -/
def IsNative : Prop :=
  ∃ windows, f.environment.windowsFolder = some windows ∧ f.platform.os.isWindows = true ∧
    p = windowsProgram windows "System32"

variable {f p}

theorem windowsPowerShell?_native :
    (f.windowsPowerShell? false).map Executable.path =
      if f.platform.os.isWindows then
        f.environment.windowsFolder.map (windowsProgram · "System32")
      else none := by
  unfold windowsPowerShell? systemFolder?
  cases f.platform.os.isWindows <;> cases f.environment.windowsFolder <;> simp [windowsProgram]

theorem windowsPowerShell?_other :
    (f.windowsPowerShell? true).map Executable.path =
      (otherFolder? f.platform).bind fun name =>
        f.environment.windowsFolder.map (windowsProgram · name) := by
  unfold windowsPowerShell? systemFolder? otherFolder?
  cases f.platform.os.isWindows <;> cases f.platform.systemIs64Bit <;>
    cases f.platform.processIs64Bit <;> cases f.environment.windowsFolder <;>
    simp [windowsProgram]

theorem isOther_iff : f.IsOther p ↔ ∃ alternate, f.windowsPowerShell? true = some alternate ∧
    Text.equalIgnoringCase alternate.path.text p.text = true := by
  have hother := windowsPowerShell?_other (f := f)
  constructor
  · rintro ⟨windows, name, hwindows, hname, hequal⟩
    rw [hwindows, hname] at hother
    obtain ⟨alternate, halternate, hpath⟩ := Option.map_eq_some_iff.1 hother
    exact ⟨alternate, halternate, hpath ▸ hequal⟩
  · rintro ⟨alternate, halternate, hequal⟩
    rw [halternate, Option.map_some, eq_comm, Option.bind_eq_some_iff] at hother
    obtain ⟨name, hname, hpath⟩ := hother
    obtain ⟨windows, hwindows, hprogram⟩ := Option.map_eq_some_iff.1 hpath
    exact ⟨windows, name, hwindows, hname, hprogram ▸ hequal⟩

/-- A host that has the other width has this process's width, too. -/
theorem IsOther.exists_native (h : f.IsOther p) :
    ∃ native, f.windowsPowerShell? false = some native ∧ f.IsNative native.path := by
  obtain ⟨windows, name, hwindows, hname, -⟩ := h
  have hos : f.platform.os.isWindows = true := by
    unfold otherFolder? at hname
    split at hname
    · next hboth => exact (Bool.and_eq_true_iff.1 hboth).1
    · cases hname
  have hnative := windowsPowerShell?_native (f := f)
  rw [hwindows, hos, if_pos rfl] at hnative
  obtain ⟨native, hsome, hpath⟩ := Option.map_eq_some_iff.1 hnative
  exact ⟨native, hsome, windows, hwindows, hos, hpath⟩

theorem IsOther.isNative_nativePath (h : f.IsOther p) : f.IsNative (f.nativePath p) := by
  obtain ⟨native, hnative, hpath⟩ := h.exists_native
  obtain ⟨alternate, halternate, hequal⟩ := isOther_iff.1 h
  rw [nativePath, halternate, hnative]
  simp only [hequal, if_true]
  exact hpath

/-- Every other path stays. -/
theorem nativePath_of_not_isOther (h : ¬f.IsOther p) : f.nativePath p = p := by
  unfold nativePath
  split
  · next alternate native halternate hnative =>
    exact if_neg fun hequal => h (isOther_iff.2 ⟨alternate, halternate, hequal⟩)
  · rfl

/-- The two programs are told apart in any letter case. -/
theorem IsNative.not_isOther (h : f.IsNative p) : ¬f.IsOther p := by
  rintro ⟨windows, name, -, hname, hequal⟩
  obtain ⟨windows', -, -, rfl⟩ := h
  have hnative : NameEnds "System32" '2' := by decide
  have hdiffers {c : Char} (hends : NameEnds name c) (hc : Text.IsPlainSmall c) (hne : c ≠ '2') :
      False := by
    rw [equalIgnoringCase_windowsProgram windows windows' hends hnative hc (by decide) hne]
      at hequal
    cases hequal
  unfold otherFolder? at hname
  split at hname
  · obtain rfl := Option.some.inj hname
    split at hdiffers
    · exact hdiffers (c := '4') (by decide) (by decide) (by decide)
    · exact hdiffers (c := 'e') (by decide) (by decide) (by decide)
  · cases hname

/-- **Mapping to the process's own width.**  To map a path twice is to map it once.  A path changes
exactly if it is the one of the Windows PowerShell of the other width up to letter case; then it
becomes the one of this process's width, which is never the other one, in whatever letter case. -/
theorem nativePath_narrow (f : Finder) (p : Path) :
    f.nativePath (f.nativePath p) = f.nativePath p ∧
      (f.nativePath p ≠ p ↔ f.IsOther p) ∧
      (f.IsOther p → f.IsNative (f.nativePath p)) ∧
      ∀ q, f.IsNative q → ¬f.IsOther q := by
  have hstays : ¬f.IsOther (f.nativePath p) := by
    by_cases h : f.IsOther p
    · exact h.isNative_nativePath.not_isOther
    · rwa [nativePath_of_not_isOther h]
  refine ⟨nativePath_of_not_isOther hstays, ⟨fun hne => ?_, fun h heq => ?_⟩,
    IsOther.isNative_nativePath, fun q => IsNative.not_isOther⟩
  · by_contra h
    exact hne (nativePath_of_not_isOther h)
  · rw [heq] at hstays
    exact hstays h

/-- A process of 32 bits on a host of 64 bits, with a separator behind the Windows folder. -/
theorem nativePath_narrow_capitals :
    let f : Finder :=
      ⟨⟨.windows, true, false⟩, { Environment.none with windowsFolder := some ⟨"/Win/"⟩ }, []⟩
    let p : Path := ⟨"/WIN/SYSNATIVE/WindowsPowerShell/V1.0/PowerShell.EXE"⟩
    f.IsOther p ∧ f.nativePath p = ⟨"/Win/System32/WindowsPowerShell/v1.0/powershell.exe"⟩ ∧
      ¬f.IsOther (f.nativePath p) := by
  intro f p
  have hother : f.IsOther p := ⟨⟨"/Win/"⟩, "Sysnative", rfl, rfl, by decide +kernel⟩
  obtain ⟨-, -, hnative, hstays⟩ := nativePath_narrow f p
  refine ⟨hother, ?_, hstays _ (hnative hother)⟩
  obtain ⟨windows, hwindows, -, hpath⟩ := hnative hother
  obtain rfl : ⟨"/Win/"⟩ = windows := Option.some.inj hwindows
  rw [hpath]
  decide +kernel

end Finder

end Discovery

end SessionHost
