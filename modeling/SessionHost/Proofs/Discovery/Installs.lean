import SessionHost.Proofs.Discovery.Searches
import SessionHost.Proofs.Text.Spelling

/-!
# Numbered installs

The folder of installed programs is listed in any order, and with names of any kind in it.
Discovery goes through the names once, with the best install so far in hand, and asks for a
program only where the number would improve on it.  What it ends with is the install of the
greatest number, and of equal ones the first that is listed.

Main definitions:

- `IsNumbered`: a name is that of a numbered install.
- `installed?`: the number of an install that has its program.
- `FirstGreatest`: the first of the names with the greatest number.
- `Finder.Lists`, `Finder.IsInstall`: the listing that is gone through, and the installs in it.

Main results:

- Theorem `installNumber?_eq_some_iff`: which names are read as numbers.
- Theorem `bestInstall_eq_some_iff`: what is best of a listing, behind a best one so far.
- Theorem `Finder.newest_install`: an install is found exactly if one is there, and it is the
  newest.
-/

namespace SessionHost.Discovery

variable {probe : Probe} {base path : Path} {preview : Bool} {name other : String} {n m : Nat}
  {names rest : List String} {best : Option (Nat × Path)}

/-! ## Numbers of installs -/

/-- What follows the number in the name of an install. -/
def numberEnding (preview : Bool) : List Char := if preview then "-preview".toList else []

/-- The name of a numbered install: ASCII digits of a number of 32 bits, with leading zeros or
without, and the ending of its kind. -/
def IsNumbered (preview : Bool) (name : String) (n : Nat) : Prop :=
  ∃ digits : List Char, name.toList = digits ++ numberEnding preview ∧ digits ≠ [] ∧
    (∀ c ∈ digits, '0' ≤ c ∧ c ≤ '9') ∧ Nat.ofDigitChars 10 digits 0 = n ∧ n ≤ 4294967295

theorem isDigit_iff {c : Char} : c.isDigit = true ↔ '0' ≤ c ∧ c ≤ '9' := by
  simp only [Char.isDigit, Bool.and_eq_true, decide_eq_true_eq]
  exact Iff.rfl

/-- An ending does not begin with a digit, so the digits of a name are all that precede it. -/
theorem digits_of_name (preview : Bool) {digits : List Char}
    (h : ∀ c ∈ digits, c.isDigit = true) :
    (digits ++ numberEnding preview).takeWhile Char.isDigit = digits ∧
      (digits ++ numberEnding preview).dropWhile Char.isDigit = numberEnding preview := by
  rw [List.takeWhile_append_of_pos h, List.dropWhile_append_of_pos h]
  cases preview with
  | false => exact ⟨List.append_nil _, rfl⟩
  | true => exact ⟨List.append_nil _, rfl⟩

/-- Which names are read as numbers. -/
theorem installNumber?_eq_some_iff : installNumber? preview name = some n ↔
    IsNumbered preview name n := by
  have heq : installNumber? preview name =
      if name.toList.dropWhile Char.isDigit = numberEnding preview then
        (Text.digitsValue? (name.toList.takeWhile Char.isDigit)).filter (· ≤ Text.maxUInt32)
      else none := rfl
  simp only [heq, IsNumbered, ← isDigit_iff]
  constructor
  · intro h
    obtain ⟨hending, hread⟩ := Option.ite_none_right_eq_some.1 h
    obtain ⟨hvalue, hle⟩ := Option.filter_eq_some_iff.1 hread
    obtain ⟨hne, hdigits, hn⟩ := Text.digitsValue?_eq_some_iff.1 hvalue
    refine ⟨_, ?_, hne, hdigits, hn, of_decide_eq_true hle⟩
    rw [← hending]
    exact List.takeWhile_append_dropWhile.symm
  · rintro ⟨digits, hname, hne, hdigits, hn, hle⟩
    obtain ⟨htake, hdrop⟩ := digits_of_name preview hdigits
    rw [hname, htake, hdrop, if_pos rfl]
    refine Option.filter_eq_some_iff.2 ⟨?_, decide_eq_true hle⟩
    exact Text.digitsValue?_eq_some_iff.2 ⟨hne, hdigits, hn⟩

/-- The number of a folder that is a numbered install with its program. -/
def installed? (probe : Probe) (base : Path) (preview : Bool) (name : String) : Option Nat :=
  (installNumber? preview name).filter fun _ => probe.isFile (installedProgram base name)

/-- An install is a numbered folder with the program in it. -/
theorem installed?_eq_some_iff : installed? probe base preview name = some n ↔
    IsNumbered preview name n ∧ probe.isFile (installedProgram base name) = true := by
  rw [installed?, Option.filter_eq_some_iff, installNumber?_eq_some_iff]

/-! ## The first of the greatest -/

/-- A name has the greatest number of all, and it is the first with that number. -/
def FirstGreatest (number? : String → Option Nat) (names : List String) (name : String)
    (n : Nat) : Prop :=
  number? name = some n ∧ ∃ before after, names = before ++ name :: after ∧
    (∀ other ∈ before, ∀ m, number? other = some m → m < n) ∧
    ∀ other ∈ after, ∀ m, number? other = some m → m ≤ n

namespace FirstGreatest

variable {number? : String → Option Nat}

/-- The first of the greatest is one of the names. -/
theorem mem (h : FirstGreatest number? names name n) : name ∈ names := by
  obtain ⟨-, before, after, rfl, -, -⟩ := h
  simp

/-- None of the names has a greater number. -/
theorem le (h : FirstGreatest number? names name n) (hother : other ∈ names)
    (hm : number? other = some m) : m ≤ n := by
  obtain ⟨hn, before, after, rfl, hbefore, hafter⟩ := h
  rcases List.mem_append.1 hother with hother | hother
  · exact Nat.le_of_lt (hbefore other hother m hm)
  · rcases List.mem_cons.1 hother with rfl | hother
    · exact Nat.le_of_eq (Option.some.inj (hm.symm.trans hn))
    · exact hafter other hother m hm

/-- A name without a number makes no difference in front of others. -/
theorem cons_of_none (hother : number? other = none) :
    FirstGreatest number? (other :: rest) name n ↔ FirstGreatest number? rest name n := by
  constructor
  · rintro ⟨hn, before, after, heq, hbefore, hafter⟩
    cases before with
    | nil =>
      obtain ⟨rfl, rfl⟩ := List.cons.inj heq
      rw [hother] at hn
      cases hn
    | cons first before =>
      obtain ⟨rfl, rfl⟩ := List.cons.inj heq
      refine ⟨hn, before, after, rfl, ?_, hafter⟩
      intro x hx
      exact hbefore x (List.mem_cons_of_mem _ hx)
  · rintro ⟨hn, before, after, rfl, hbefore, hafter⟩
    refine ⟨hn, other :: before, after, rfl, ?_, hafter⟩
    intro x hx k hk
    rcases List.mem_cons.1 hx with rfl | hx
    · rw [hother] at hk
      cases hk
    · exact hbefore x hx k hk

/-- A name with a number is the first of the greatest, or a later one has a greater number. -/
theorem cons_of_some (hother : number? other = some m) :
    FirstGreatest number? (other :: rest) name n ↔
      (name = other ∧ n = m ∧ ∀ x ∈ rest, ∀ k, number? x = some k → k ≤ m) ∨
        (m < n ∧ FirstGreatest number? rest name n) := by
  constructor
  · rintro ⟨hn, before, after, heq, hbefore, hafter⟩
    cases before with
    | nil =>
      obtain ⟨rfl, rfl⟩ := List.cons.inj heq
      obtain rfl : m = n := Option.some.inj (hother.symm.trans hn)
      exact Or.inl ⟨rfl, rfl, hafter⟩
    | cons first before =>
      obtain ⟨rfl, rfl⟩ := List.cons.inj heq
      refine Or.inr ⟨hbefore other List.mem_cons_self m hother, hn, before, after, rfl, ?_, hafter⟩
      intro x hx
      exact hbefore x (List.mem_cons_of_mem _ hx)
  · rintro (⟨rfl, rfl, hrest⟩ | ⟨hlt, hn, before, after, rfl, hbefore, hafter⟩)
    · exact ⟨hother, [], rest, rfl, fun x hx => absurd hx List.not_mem_nil, hrest⟩
    · refine ⟨hn, other :: before, after, rfl, ?_, hafter⟩
      intro x hx k hk
      rcases List.mem_cons.1 hx with rfl | hx
      · rw [hother] at hk
        cases hk
        exact hlt
      · exact hbefore x hx k hk

/-- Some name is the first of the greatest as soon as one has a number. -/
theorem exists_of_some (hname : name ∈ names) (hn : number? name = some n) :
    ∃ first k, FirstGreatest number? names first k := by
  induction names generalizing name n with
  | nil => cases hname
  | cons other rest ih =>
    by_cases hrest : ∃ x ∈ rest, ∃ k, number? x = some k
    · obtain ⟨x, hx, k, hk⟩ := hrest
      obtain ⟨first, g, hfirst⟩ := ih hx hk
      cases hother : number? other with
      | none => exact ⟨first, g, (cons_of_none hother).2 hfirst⟩
      | some m =>
        by_cases hlt : m < g
        · exact ⟨first, g, (cons_of_some hother).2 (Or.inr ⟨hlt, hfirst⟩)⟩
        · refine ⟨other, m, (cons_of_some hother).2 (Or.inl ⟨rfl, rfl, ?_⟩)⟩
          intro y hy j hj
          exact (hfirst.le hy hj).trans (Nat.le_of_not_lt hlt)
    · rcases List.mem_cons.1 hname with rfl | hname
      · refine ⟨name, n, (cons_of_some hn).2 (Or.inl ⟨rfl, rfl, ?_⟩)⟩
        intro y hy j hj
        exact absurd ⟨y, hy, j, hj⟩ hrest
      · exact absurd ⟨name, hname, n, hn⟩ hrest

end FirstGreatest

/-! ## The best of a listing -/

/-- The best install, with one more name looked at. -/
def better (probe : Probe) (base : Path) (preview : Bool) (best : Option (Nat × Path))
    (name : String) : Option (Nat × Path) :=
  match installed? probe base preview name with
  | some n => if improves best n then some (n, installedProgram base name) else best
  | none => best

/-- An install that improves takes the place of the best one. -/
theorem better_of_some (h : installed? probe base preview name = some n) :
    better probe base preview best name =
      if improves best n then some (n, installedProgram base name) else best := by
  rw [better, h]

/-- Other names change nothing. -/
theorem better_of_none (h : installed? probe base preview name = none) :
    better probe base preview best name = best := by
  rw [better, h]

/-- The best of a listing comes from looking at one name after the other.  It makes no difference
that the program is asked for only where the number improves. -/
theorem bestInstall_value :
    (bestInstall probe base preview best names).value =
      names.foldl (better probe base preview) best := by
  induction names generalizing best with
  | nil => rfl
  | cons name rest ih =>
    rw [List.foldl_cons, ← ih, bestInstall]
    cases hnumber : installNumber? preview name with
    | none => rw [better_of_none (by rw [installed?, hnumber]; rfl)]
    | some n =>
      cases hfile : probe.isFile (installedProgram base name) with
      | true =>
        rw [better_of_some (n := n) (by simp [installed?, hnumber, hfile])]
        by_cases himproves : improves best n = true
        · simp [himproves, Probe.askFile, hfile]
        · simp [himproves]
      | false =>
        rw [better_of_none (by simp [installed?, hnumber, hfile])]
        by_cases himproves : improves best n = true
        · simp [himproves, Probe.askFile, hfile]
        · simp [himproves]

/-- Only a greater number improves. -/
theorem improves_some : improves (some (m, path)) n = true ↔ m < n := by
  simp [improves]

/-- What improves on the best so far is improved on by greater numbers only. -/
theorem improves_of_le (h : improves best m = true) (hle : m ≤ n) : improves best n = true := by
  cases best with
  | none => rfl
  | some b => exact improves_some.2 (Nat.lt_of_lt_of_le (improves_some.1 h) hle)

/-- What improves is greater than what does not. -/
theorem lt_of_not_improves (h : ¬improves best m = true) (hn : improves best n = true) : m < n := by
  cases best with
  | none => exact absurd rfl h
  | some b =>
    rw [improves_some] at h hn
    omega

/-- The best of a listing is the first of its greatest installs if that improves on the best so far,
and else the best so far. -/
theorem bestInstall_eq_some_iff :
    (bestInstall probe base preview best names).value = some (n, path) ↔
      (∃ name, FirstGreatest (installed? probe base preview) names name n ∧
        path = installedProgram base name ∧ improves best n = true) ∨
      (best = some (n, path) ∧
        ∀ other ∈ names, ∀ m, installed? probe base preview other = some m → m ≤ n) := by
  rw [bestInstall_value]
  induction names generalizing best with
  | nil => simp [FirstGreatest]
  | cons name rest ih =>
    rw [List.foldl_cons, ih]
    cases hname : installed? probe base preview name with
    | none =>
      simp only [better_of_none hname, FirstGreatest.cons_of_none hname, List.forall_mem_cons,
        hname]
      simp
    | some m =>
      rw [better_of_some hname]
      simp only [FirstGreatest.cons_of_some hname, List.forall_mem_cons, hname, Option.some.injEq,
        forall_eq']
      by_cases himproves : improves best m = true
      · -- The name is the best so far: it stays unless a later one has a greater number.
        rw [if_pos himproves]
        constructor
        · rintro (⟨x, hx, hpath, hlt⟩ | ⟨heq, hrest⟩)
          · rw [improves_some] at hlt
            exact Or.inl ⟨x, Or.inr ⟨hlt, hx⟩, hpath, improves_of_le himproves hlt.le⟩
          · cases heq
            exact Or.inl ⟨name, Or.inl ⟨rfl, rfl, hrest⟩, rfl, himproves⟩
        · rintro (⟨x, ⟨rfl, rfl, hrest⟩ | ⟨hlt, hx⟩, rfl, -⟩ | ⟨rfl, hle, -⟩)
          · exact Or.inr ⟨rfl, hrest⟩
          · exact Or.inl ⟨x, hx, rfl, improves_some.2 hlt⟩
          · rw [improves_some] at himproves
            omega
      · -- The name is no better than what there is, and what there is stays in hand.
        rw [if_neg himproves]
        constructor
        · rintro (⟨x, hx, hpath, hn⟩ | ⟨rfl, hrest⟩)
          · exact Or.inl ⟨x, Or.inr ⟨lt_of_not_improves himproves hn, hx⟩, hpath, hn⟩
          · rw [improves_some] at himproves
            exact Or.inr ⟨rfl, Nat.le_of_not_lt himproves, hrest⟩
        · rintro (⟨x, ⟨rfl, rfl, -⟩ | ⟨-, hx⟩, hpath, hn⟩ | ⟨rfl, -, hrest⟩)
          · exact absurd hn himproves
          · exact Or.inl ⟨x, hx, hpath, hn⟩
          · exact Or.inr ⟨rfl, hrest⟩

/-- With nothing in hand, the best of a listing is the first of its greatest installs. -/
theorem bestInstall_none_iff {b : Nat × Path} :
    (bestInstall probe base preview none names).value = some b ↔
      ∃ name, FirstGreatest (installed? probe base preview) names name b.1 ∧
        b.2 = installedProgram base name := by
  rw [bestInstall_eq_some_iff]
  simp [improves]

/-! ## The install that is found -/

namespace Finder

/-- The name under which an install is offered: its kind, and the width of its folder. -/
def installLabel (f : Finder) (alternate preview : Bool) : String :=
  "PowerShell" ++ (if preview then " Preview" else "") ++ " (" ++
    (if f.platform.processIs64Bit != alternate then "x64" else "x86") ++ ")"

/-- The folder in which installs of a width are listed, and what it lists. -/
def Lists (f : Finder) (probe : Probe) (alternate : Bool) (base : Path) (names : List String) :
    Prop :=
  ∃ folder, f.programFiles? alternate = some folder ∧ base = folder.join "PowerShell" ∧
    probe.listing base = some names

variable {f : Finder} {alternate : Bool} {exe : Executable}

/-- A listing leads to its best install. -/
theorem numberedInstall_value (h : f.Lists probe alternate base names) :
    (f.numberedInstall probe alternate preview).value =
      (bestInstall probe base preview none names).value.map fun b =>
        { path := b.2, name := f.installLabel alternate preview } := by
  obtain ⟨folder, hfolder, rfl, hlisting⟩ := h
  simp only [numberedInstall, hfolder, Traced.bind_value, Probe.askListing, hlisting]
  rfl

/-- Without a folder that can be listed there is no install. -/
theorem numberedInstall_of_unlisted (h : ∀ base names, ¬f.Lists probe alternate base names) :
    (f.numberedInstall probe alternate preview).value = none := by
  cases hfolder : f.programFiles? alternate with
  | none =>
    simp only [numberedInstall, hfolder]
    rfl
  | some folder =>
    cases hlisting : probe.listing (folder.join "PowerShell") with
    | none =>
      simp only [numberedInstall, hfolder, Traced.bind_value, Probe.askListing, hlisting]
      rfl
    | some names => exact absurd ⟨folder, hfolder, rfl, hlisting⟩ (h _ names)

/-- The install that is found is the first of the greatest in the listing. -/
theorem numberedInstall_eq_some_iff :
    (f.numberedInstall probe alternate preview).value = some exe ↔
      ∃ base names name n, f.Lists probe alternate base names ∧
        FirstGreatest (installed? probe base preview) names name n ∧
        exe = { path := installedProgram base name, name := f.installLabel alternate preview } := by
  constructor
  · intro hfound
    by_cases hlists : ∃ base names, f.Lists probe alternate base names
    · obtain ⟨base, names, hlists⟩ := hlists
      rw [numberedInstall_value hlists] at hfound
      obtain ⟨b, hb, rfl⟩ := Option.map_eq_some_iff.1 hfound
      obtain ⟨name, hname, hpath⟩ := bestInstall_none_iff.1 hb
      exact ⟨base, names, name, b.1, hlists, hname, by rw [hpath]⟩
    · rw [numberedInstall_of_unlisted fun base names h => hlists ⟨base, names, h⟩] at hfound
      cases hfound
  · rintro ⟨base, names, name, n, hlists, hname, rfl⟩
    rw [numberedInstall_value hlists]
    exact Option.map_eq_some_iff.2
      ⟨(n, installedProgram base name), bestInstall_none_iff.2 ⟨name, hname, rfl⟩, rfl⟩

/-- A name is that of an install, and the program is in its folder. -/
def IsInstall (probe : Probe) (base : Path) (preview : Bool) (name : String) (n : Nat) : Prop :=
  IsNumbered preview name n ∧ probe.isFile (installedProgram base name) = true

/-- **The newest numbered install wins.**  Whatever the folder of installed programs lists, and in
whatever order, an install is found exactly if one of the names is that of an install with its
program; and it is the one of the greatest number, of equal ones the first that is listed. -/
theorem newest_install (f : Finder) (probe : Probe) (alternate preview : Bool) :
    ((∃ exe, (f.numberedInstall probe alternate preview).value = some exe) ↔
      ∃ base names name n, f.Lists probe alternate base names ∧ name ∈ names ∧
        IsInstall probe base preview name n) ∧
    ∀ exe, (f.numberedInstall probe alternate preview).value = some exe ↔
      ∃ base before name after n, f.Lists probe alternate base (before ++ name :: after) ∧
        IsInstall probe base preview name n ∧
        (∀ other ∈ before, ∀ m, IsInstall probe base preview other m → m < n) ∧
        (∀ other ∈ after, ∀ m, IsInstall probe base preview other m → m ≤ n) ∧
        exe = { path := installedProgram base name, name := f.installLabel alternate preview } := by
  simp only [IsInstall, ← installed?_eq_some_iff]
  constructor
  · constructor
    · rintro ⟨exe, hexe⟩
      obtain ⟨base, names, name, n, hlists, hname, -⟩ := numberedInstall_eq_some_iff.1 hexe
      exact ⟨base, names, name, n, hlists, hname.mem, hname.1⟩
    · rintro ⟨base, names, name, n, hlists, hmem, hn⟩
      obtain ⟨first, k, hfirst⟩ := FirstGreatest.exists_of_some hmem hn
      exact ⟨_, numberedInstall_eq_some_iff.2 ⟨base, names, first, k, hlists, hfirst, rfl⟩⟩
  · intro exe
    rw [numberedInstall_eq_some_iff]
    constructor
    · rintro ⟨base, names, name, n, hlists, ⟨hn, before, after, rfl, hbefore, hafter⟩, hexe⟩
      exact ⟨base, before, name, after, n, hlists, hn, hbefore, hafter, hexe⟩
    · rintro ⟨base, before, name, after, n, hlists, hn, hbefore, hafter, hexe⟩
      exact ⟨base, _, name, n, hlists, ⟨hn, before, after, rfl, hbefore, hafter⟩, hexe⟩

end Finder

/-- A folder without its program does not hide a lower number, and `10` is more than `9`. -/
example :
    (bestInstall ⟨fun p => p.text ∈ ["/p/10/pwsh.exe", "/p/07/pwsh.exe", "/p/9-preview/pwsh.exe"],
        fun _ => true, fun _ => none⟩ ⟨"/p"⟩ false none
      ["7", "9-preview", "07", "11", "10", "4294967296", "٩"]).value =
      some (10, ⟨"/p/10/pwsh.exe"⟩) := by
  decide +kernel

end SessionHost.Discovery
