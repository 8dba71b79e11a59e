import Mathlib.Data.List.Perm.Basic
import SessionHost.Proofs.Discovery.Installs

/-!
# The order of listings

A file system lists the names in a folder in an order of its own.  Discovery goes by that order in
two places: among the package folders of the Store it takes the first one, whether or not its
program is there, and among the numbered installs of the greatest number it takes the first one,
too.  If the programs of the folders in question are the same path, the order makes no difference,
and it makes none anywhere else.

Main definitions:

- `Probe.Reordered`: two file systems that differ in the order of listings only.
- `Finder.StoreSettled`, `Finder.NumbersSettled`: the order of a listing does not decide.

Main results:

- Theorem `Finder.all_reordered_iff`: two orders find the same runtimes exactly if they find the
  same at every place.
- Theorem `Finder.order_irrelevant_iff`: no order makes a difference exactly if none decides, and a
  runtime of the Store is found exactly if the first package folder has its program.
-/

namespace SessionHost.Discovery

variable {f : Finder} {p q : Probe} {alternate preview : Bool} {exe : Executable} {c : Candidate}
  {apps base path : Path} {names others : List String} {a b name : String} {n : Nat}

/-! ## Reordered listings -/

/-- Two file systems that differ in the order of listings only. -/
structure Probe.Reordered (p q : Probe) : Prop where
  isFile_eq : q.isFile = p.isFile
  isFolder_eq : q.isFolder = p.isFolder
  listing : ∀ path, Option.Rel List.Perm (p.listing path) (q.listing path)

/-- A file system that lists one folder in another way. -/
def Probe.withListing (p : Probe) (path : Path) (names : List String) : Probe :=
  { p with listing := fun x => if x = path then some names else p.listing x }

namespace Probe.Reordered

/-- Reordering can be undone. -/
theorem symm (h : p.Reordered q) : q.Reordered p where
  isFile_eq := h.isFile_eq.symm
  isFolder_eq := h.isFolder_eq.symm
  listing path := by
    have hpath := h.listing path
    generalize p.listing path = x at hpath ⊢
    generalize q.listing path = y at hpath ⊢
    cases hpath with
    | some hperm => exact Option.Rel.some hperm.symm
    | none => exact Option.Rel.none

/-- A folder that one of them lists, the other one lists, too. -/
theorem exists_listing (h : p.Reordered q) (hnames : p.listing path = some names) :
    ∃ others, q.listing path = some others ∧ names.Perm others := by
  have hpath := h.listing path
  rw [hnames] at hpath
  generalize hq : q.listing path = y at hpath
  cases hpath with
  | some hperm => exact ⟨_, rfl, hperm⟩

/-- Another order of one listing. -/
theorem withListing (hnames : p.listing path = some names) (hperm : names.Perm others) :
    p.Reordered (p.withListing path others) where
  isFile_eq := rfl
  isFolder_eq := rfl
  listing x := by
    by_cases hx : x = path
    · subst hx
      simp only [Probe.withListing, if_true, hnames]
      exact Option.Rel.some hperm
    · simp only [Probe.withListing, if_neg hx]
      cases p.listing x with
      | none => exact Option.Rel.none
      | some names => exact Option.Rel.some (List.Perm.refl names)

end Probe.Reordered

/-! ## What does not depend on listings -/

/-- Asking for files does not depend on the order of listings. -/
theorem firstFile_reordered (h : p.Reordered q) (paths : List Path) :
    q.firstFile paths = p.firstFile paths := by
  induction paths with
  | nil => rfl
  | cons path rest ih =>
    rw [Probe.firstFile, Probe.firstFile, ih, Probe.askFile, Probe.askFile, h.isFile_eq]

/-- Configured paths do not depend on it. -/
theorem resolveAdditional_reordered (h : p.Reordered q) (name raw : String) :
    f.resolveAdditional q name raw = f.resolveAdditional p name raw := by
  unfold Finder.resolveAdditional
  simp only [firstFile_reordered h]

/-- The places that are searched by listing a folder. -/
def listedPlaces : List Candidate :=
  [.stable, .stableAlternateBitness, .stableStore, .preview, .previewStore,
    .previewAlternateBitness]

/-- A known path does not depend on it. -/
theorem ifInstalled_reordered (h : p.Reordered q) (exe : Executable) :
    Finder.ifInstalled q exe = Finder.ifInstalled p exe := by
  rw [Finder.ifInstalled, Finder.ifInstalled, Probe.askFile, Probe.askFile, h.isFile_eq]

/-- The global tool does not depend on it. -/
theorem globalTool_reordered (h : p.Reordered q) : f.globalTool q = f.globalTool p := by
  unfold Finder.globalTool
  simp only [ifInstalled_reordered h]

/-- Fixed paths do not depend on it. -/
theorem fixedPath_reordered (h : p.Reordered q) (linux macOS name : String) :
    f.fixedPath q linux macOS name = f.fixedPath p linux macOS name := by
  unfold Finder.fixedPath
  simp only [ifInstalled_reordered h]

/-- Only Windows has the places of the other width and those of the Store. -/
theorem os_of_candidate (hc : c ∈ candidates f.platform.os)
    (hplace : c ∈ [.stableAlternateBitness, .stableStore, .previewStore,
      .previewAlternateBitness]) : f.platform.os = .windows := by
  revert hc hplace
  cases f.platform.os <;> cases c <;> decide

/-- A place that is not searched by listing a folder. -/
theorem resolve_reordered (h : p.Reordered q) (hc : c ∈ candidates f.platform.os)
    (hfree : f.platform.os = .windows → c ∉ listedPlaces) : f.resolve q c = f.resolve p c := by
  have hother (hlisted : c ∈ listedPlaces) : f.platform.os.isWindows = false := by
    cases hos : f.platform.os with
    | windows => exact absurd hlisted (hfree hos)
    | _ => rfl
  cases c with
  | stable | preview =>
    simp only [Finder.resolve, hother (by decide), fixedPath_reordered h]
    rfl
  | stableSnap | stableHomebrew | previewSnap => exact ifInstalled_reordered h _
  | globalTool => exact globalTool_reordered h
  | windowsPowerShell | windowsPowerShellAlternateBitness =>
    simp only [Finder.resolve, ifInstalled_reordered h]
  | stableAlternateBitness | stableStore | previewStore | previewAlternateBitness =>
    exact absurd (by decide) (hfree (os_of_candidate hc (by decide)))

/-! ## Runtimes by their names -/

/-- The name of a runtime of the Store. -/
def storeLabel (preview : Bool) : String :=
  if preview then "PowerShell Preview (Store)" else "PowerShell (Store)"

/-- The name under which Windows offers what it finds at a place. -/
def Finder.placeLabel (f : Finder) : Candidate → String
  | .stable => f.installLabel false false
  | .stableAlternateBitness => f.installLabel true false
  | .stableStore => storeLabel false
  | .globalTool => ".NET Core PowerShell Global Tool"
  | .preview => f.installLabel false true
  | .previewStore => storeLabel true
  | .previewAlternateBitness => f.installLabel true true
  | .windowsPowerShell => f.windowsPowerShellLabel false
  | .windowsPowerShellAlternateBitness => f.windowsPowerShellLabel true
  | .stableSnap | .stableHomebrew | .previewSnap => ""

/-- What is looked for at a known path is found if it is a file. -/
theorem ifInstalled_eq_some_iff {e : Executable} :
    (Finder.ifInstalled p e).value = some exe ↔ p.isFile e.path = true ∧ exe = e := by
  change (if p.isFile e.path = true then some e else none) = some exe ↔ _
  rw [Option.ite_none_right_eq_some, Option.some.injEq, eq_comm (a := e)]

/-- The folder of the Store's packages, and what it lists. -/
def Finder.ListsApps (f : Finder) (p : Probe) (apps : Path) (names : List String) : Prop :=
  ∃ folder, f.environment.localAppData = some folder ∧
    apps = (folder.join "Microsoft").join "WindowsApps" ∧ p.isFolder apps = true ∧
    p.listing apps = some names

/-- The program in a package folder. -/
def packageProgram (apps : Path) (name : String) : Path := (apps.join name).join "pwsh.exe"

/-- A listing leads to its first package folder. -/
theorem Finder.storeInstall_value (h : f.ListsApps p apps names) :
    (f.storeInstall p preview).value =
      (names.find? (isStoreFolder preview)).bind fun name =>
        (ifInstalled p
          { path := packageProgram apps name, name := storeLabel preview }).value := by
  obtain ⟨folder, hfolder, rfl, hthere, hlisting⟩ := h
  simp only [storeInstall, hfolder, Traced.bind_value, Probe.askFolder, Probe.askListing, hthere,
    hlisting, if_true, Option.getD_some]
  cases names.find? (isStoreFolder preview) <;> rfl

/-- Without a folder of packages that can be listed there is no runtime of the Store. -/
theorem Finder.storeInstall_of_unlisted (h : ∀ apps names, ¬f.ListsApps p apps names) :
    (f.storeInstall p preview).value = none := by
  unfold storeInstall
  cases hfolder : f.environment.localAppData with
  | none => rfl
  | some folder =>
    by_cases hthere : p.isFolder ((folder.join "Microsoft").join "WindowsApps") = true
    · cases hlisting : p.listing ((folder.join "Microsoft").join "WindowsApps") with
      | none =>
        simp only [Traced.bind_value, Probe.askFolder, Probe.askListing, hthere, hlisting]
        rfl
      | some names => exact absurd ⟨folder, hfolder, rfl, hthere, hlisting⟩ (h _ names)
    · simp only [Traced.bind_value, Probe.askFolder, if_neg hthere]
      rfl

/-- The first package folder that is listed decides: its program is found or nothing. -/
theorem Finder.storeInstall_eq_some_iff :
    (f.storeInstall p preview).value = some exe ↔
      ∃ apps names name, f.ListsApps p apps names ∧
        names.find? (isStoreFolder preview) = some name ∧
        p.isFile (packageProgram apps name) = true ∧
        exe = { path := packageProgram apps name, name := storeLabel preview } := by
  constructor
  · intro hfound
    by_cases hlists : ∃ apps names, f.ListsApps p apps names
    · obtain ⟨apps, names, hlists⟩ := hlists
      rw [storeInstall_value hlists] at hfound
      obtain ⟨name, hname, hinstalled⟩ := Option.bind_eq_some_iff.1 hfound
      obtain ⟨hfile, hexe⟩ := ifInstalled_eq_some_iff.1 hinstalled
      exact ⟨apps, names, name, hlists, hname, hfile, hexe⟩
    · rw [storeInstall_of_unlisted fun apps names h => hlists ⟨apps, names, h⟩] at hfound
      cases hfound
  · rintro ⟨apps, names, name, hlists, hname, hfile, hexe⟩
    rw [storeInstall_value hlists, hname]
    exact ifInstalled_eq_some_iff.2 ⟨hfile, hexe⟩

/-- What Windows finds at a place bears the name of the place. -/
theorem Finder.resolve_name (hos : f.platform.os = .windows) (hc : c ∈ candidates .windows)
    (h : (f.resolve p c).value = some exe) : exe.name = f.placeLabel c := by
  have hwindows : f.platform.os.isWindows = true := by rw [hos]; rfl
  have hnumbered {alternate preview : Bool}
      (h : (f.numberedInstall p alternate preview).value = some exe) :
      exe.name = f.installLabel alternate preview := by
    obtain ⟨_, _, _, _, -, -, rfl⟩ := numberedInstall_eq_some_iff.1 h
    rfl
  have hstore {preview : Bool} (h : (f.storeInstall p preview).value = some exe) :
      exe.name = storeLabel preview := by
    obtain ⟨_, _, _, -, -, -, rfl⟩ := storeInstall_eq_some_iff.1 h
    rfl
  have hwindowsPowerShell {alternate : Bool} {e : Executable}
      (he : f.windowsPowerShell? alternate = some e) (h : (ifInstalled p e).value = some exe) :
      exe.name = f.windowsPowerShellLabel alternate := by
    obtain ⟨-, rfl⟩ := ifInstalled_eq_some_iff.1 h
    unfold windowsPowerShell? at he
    split at he
    · cases he
    · split at he
      · cases he
      · obtain ⟨folder, -, rfl⟩ := Option.map_eq_some_iff.1 he
        rfl
  cases c with
  | stable | preview =>
    simp only [resolve, hwindows, if_true] at h
    exact hnumbered h
  | stableAlternateBitness | previewAlternateBitness => exact hnumbered h
  | stableStore | previewStore => exact hstore h
  | globalTool =>
    simp only [resolve, globalTool] at h
    split at h
    · cases h
    · obtain ⟨-, rfl⟩ := ifInstalled_eq_some_iff.1 h
      rfl
  | windowsPowerShell | windowsPowerShellAlternateBitness =>
    simp only [resolve] at h
    split at h
    · next e he => exact hwindowsPowerShell he h
    · cases h
  | stableSnap | stableHomebrew | previewSnap => exact absurd hc (by decide)

/-! ## Place by place -/

section Labels

variable {α β κ : Type} [DecidableEq κ] {g : α → Option β} {key : β → κ} {label : α → κ}
  {l : List α} {x : α}

/-- Nothing is found elsewhere under the label of a place. -/
theorem find?_filterMap_of_notMem (hg : ∀ z ∈ l, ∀ y, g z = some y → key y = label z)
    (hx : label x ∉ l.map label) : (l.filterMap g).find? (fun y => key y = label x) = none := by
  rw [List.find?_eq_none]
  intro y hy hkey
  obtain ⟨z, hz, hzy⟩ := List.mem_filterMap.1 hy
  have hlabel : label x = label z := (of_decide_eq_true hkey).symm.trans (hg z hz y hzy)
  exact hx (hlabel ▸ List.mem_map_of_mem hz)

/-- If what is found at a place bears its label, it can be read off the list of all that is
found. -/
theorem find?_filterMap (hg : ∀ z ∈ l, ∀ y, g z = some y → key y = label z)
    (hl : (l.map label).Nodup) (hx : x ∈ l) :
    (l.filterMap g).find? (fun y => key y = label x) = g x := by
  induction l with
  | nil => cases hx
  | cons z rest ih =>
    rw [List.map_cons, List.nodup_cons] at hl
    have hrest : ∀ a ∈ rest, ∀ y, g a = some y → key y = label a :=
      fun a ha => hg a (List.mem_cons_of_mem _ ha)
    rw [List.filterMap_cons]
    rcases List.mem_cons.1 hx with rfl | hx
    · cases hz : g x with
      | none => exact find?_filterMap_of_notMem hrest hl.1
      | some y =>
        have hkey : key y = label x := hg x List.mem_cons_self y hz
        simp [hkey]
    · cases hz : g z with
      | none => exact ih hrest hl.2 hx
      | some y =>
        have hne : key y ≠ label x := by
          rw [hg z List.mem_cons_self y hz]
          intro heq
          exact hl.1 (heq ▸ List.mem_map_of_mem hx)
        simp only [List.find?_cons, decide_eq_false hne]
        exact ih hrest hl.2 hx

end Labels

/-- The places of Windows whose runtimes are told apart by their names: all but the last two. -/
theorem nodup_placeLabel (f : Finder) :
    (((candidates .windows).take 7).map f.placeLabel).Nodup := by
  have hlabels (wide : Bool) : (((candidates .windows).take 7).map
      (Finder.placeLabel ⟨⟨.windows, true, wide⟩, .none, []⟩)).Nodup := by
    cases wide <;> decide +kernel
  exact hlabels f.platform.processIs64Bit

/-- What Windows finds at a place can be read off what it finds at all of them. -/
theorem find?_places (hos : f.platform.os = .windows) (hc : c ∈ (candidates .windows).take 7) :
    (((candidates .windows).take 7).filterMap fun c => (f.resolve p c).value).find?
      (fun exe => exe.name = f.placeLabel c) = (f.resolve p c).value := by
  refine find?_filterMap (fun z hz y hy => ?_) (nodup_placeLabel f) hc
  exact f.resolve_name hos (List.mem_of_mem_take hz) hy

/-- Two orders of listings find the same runtimes exactly if they find the same at every place. -/
theorem Finder.all_reordered_iff (h : p.Reordered q) :
    (f.all q).value = (f.all p).value ↔
      ∀ c ∈ candidates f.platform.os, (f.resolve q c).value = (f.resolve p c).value := by
  have hconfigured : f.configured q = f.configured p := by
    unfold configured
    simp only [resolveAdditional_reordered h]
  rw [all_value, all_value, hconfigured, List.append_left_inj]
  constructor
  · intro hdefaults
    by_cases hos : f.platform.os = .windows
    · -- The last two places are not searched by listing a folder.
      have hlast : ∀ c ∈ (candidates .windows).drop 7, f.resolve q c = f.resolve p c := by
        intro c hc
        refine resolve_reordered h (hos ▸ List.mem_of_mem_drop hc) fun _ => ?_
        revert hc
        cases c <;> decide
      have hsplit (r : Probe) : f.defaults r =
          ((candidates .windows).take 7).filterMap (fun c => (f.resolve r c).value) ++
            ((candidates .windows).drop 7).filterMap fun c => (f.resolve r c).value := by
        rw [← List.filterMap_append, List.take_append_drop, defaults, hos]
      rw [hsplit, hsplit, List.filterMap_congr fun c hc => congrArg Traced.value (hlast c hc),
        List.append_left_inj] at hdefaults
      intro c hc
      rw [hos, ← List.take_append_drop 7 (candidates .windows)] at hc
      rcases List.mem_append.1 hc with hc | hc
      · rw [← find?_places hos hc, ← find?_places hos hc, hdefaults]
      · rw [hlast c hc]
    · intro c hc
      rw [resolve_reordered h hc fun hwindows => absurd hwindows hos]
  · intro heq
    exact List.filterMap_congr heq

/-! ## Listings that do not decide -/

namespace Finder

/-- The order of the Store's package folders does not decide: once one of them has its program, it
is that of all. -/
def StoreSettled (f : Finder) (p : Probe) (preview : Bool) : Prop :=
  ∀ apps names, f.ListsApps p apps names → ∀ a ∈ names, ∀ b ∈ names,
    isStoreFolder preview a = true → isStoreFolder preview b = true →
    p.isFile (packageProgram apps a) = true → packageProgram apps a = packageProgram apps b

/-- The order of the numbered installs does not decide: all of the greatest number are the same. -/
def NumbersSettled (f : Finder) (p : Probe) (alternate preview : Bool) : Prop :=
  ∀ base names, f.Lists p alternate base names → ∀ a ∈ names, ∀ b ∈ names, ∀ n,
    IsInstall p base preview a n → IsInstall p base preview b n →
    (∀ c ∈ names, ∀ m, IsInstall p base preview c m → m ≤ n) →
    installedProgram base a = installedProgram base b

/-- The folder of apps is listed, in another order. -/
theorem ListsApps.reordered (hlists : f.ListsApps p apps names) (h : p.Reordered q) :
    ∃ others, f.ListsApps q apps others ∧ names.Perm others := by
  obtain ⟨folder, hfolder, rfl, hthere, hlisting⟩ := hlists
  obtain ⟨others, hothers, hperm⟩ := h.exists_listing hlisting
  exact ⟨others, ⟨folder, hfolder, rfl, h.isFolder_eq ▸ hthere, hothers⟩, hperm⟩

/-- The folder of installs is listed, in another order. -/
theorem Lists.reordered (hlists : f.Lists p alternate base names) (h : p.Reordered q) :
    ∃ others, f.Lists q alternate base others ∧ names.Perm others := by
  obtain ⟨folder, hfolder, rfl, hlisting⟩ := hlists
  obtain ⟨others, hothers, hperm⟩ := h.exists_listing hlisting
  exact ⟨others, ⟨folder, hfolder, rfl, hothers⟩, hperm⟩

/-- A finder lists one folder of packages. -/
theorem ListsApps.unique (h : f.ListsApps p apps names) {apps' : Path}
    (h' : f.ListsApps p apps' others) : apps' = apps ∧ others = names := by
  obtain ⟨folder, hfolder, rfl, -, hlisting⟩ := h
  obtain ⟨folder', hfolder', rfl, -, hlisting'⟩ := h'
  obtain rfl : folder = folder' := Option.some.inj (hfolder.symm.trans hfolder')
  exact ⟨rfl, Option.some.inj (hlisting'.symm.trans hlisting)⟩

/-- Whether the folder of apps settles its result does not depend on its order. -/
theorem StoreSettled.reordered (hs : f.StoreSettled p preview) (h : p.Reordered q) :
    f.StoreSettled q preview := by
  intro apps others hothers a ha b hb hstore hstore' hfile
  obtain ⟨names, hnames, hperm⟩ := hothers.reordered h.symm
  rw [h.isFile_eq] at hfile
  exact hs apps names hnames a (hperm.subset ha) b (hperm.subset hb) hstore hstore' hfile

/-- Where the order of the package folders does not decide, what is found stays. -/
theorem StoreSettled.storeInstall (hs : f.StoreSettled p preview) (h : p.Reordered q)
    (hfound : (f.storeInstall p preview).value = some exe) :
    (f.storeInstall q preview).value = some exe := by
  obtain ⟨apps, names, name, hlists, hname, hfile, rfl⟩ := storeInstall_eq_some_iff.1 hfound
  have hmem : name ∈ names := List.mem_of_find?_eq_some hname
  have hstore : isStoreFolder preview name = true := List.find?_some hname
  obtain ⟨others, hothers, hperm⟩ := hlists.reordered h
  obtain ⟨first, hfirst⟩ : ∃ first, others.find? (isStoreFolder preview) = some first :=
    Option.isSome_iff_exists.1 (List.find?_isSome.2 ⟨name, hperm.subset hmem, hstore⟩)
  have heq : packageProgram apps name = packageProgram apps first :=
    hs apps names hlists name hmem first (hperm.symm.subset (List.mem_of_find?_eq_some hfirst))
      hstore (List.find?_some hfirst) hfile
  refine storeInstall_eq_some_iff.2 ⟨apps, others, first, hothers, hfirst, ?_, by rw [heq]⟩
  rw [h.isFile_eq, ← heq]
  exact hfile

/-- What is found in the Store if a folder is listed first. -/
theorem storeInstall_front (hlists : f.ListsApps p apps names)
    (hstore : isStoreFolder preview a = true) :
    (f.storeInstall (p.withListing apps (a :: names.erase a)) preview).value =
      (ifInstalled p { path := packageProgram apps a, name := storeLabel preview }).value := by
  have hfront :
      f.ListsApps (p.withListing apps (a :: names.erase a)) apps (a :: names.erase a) := by
    obtain ⟨folder, hfolder, happs, hthere, -⟩ := hlists
    exact ⟨folder, hfolder, happs, hthere, if_pos rfl⟩
  rw [storeInstall_value hfront, List.find?_cons, hstore]
  rfl

/-- An order of the package folders that decides leads to different runtimes. -/
theorem storeSettled_of_forall (h : ∀ q, p.Reordered q →
    (f.storeInstall q preview).value = (f.storeInstall p preview).value) :
    f.StoreSettled p preview := by
  intro apps names hlists a ha b hb hstore hstore' hfile
  obtain ⟨-, -, -, -, hlisting⟩ := id hlists
  have hfirst := h _ (.withListing hlisting (List.perm_cons_erase ha))
  have hsecond := h _ (.withListing hlisting (List.perm_cons_erase hb))
  rw [storeInstall_front hlists hstore] at hfirst
  rw [storeInstall_front hlists hstore', ← hfirst] at hsecond
  have hfound : (ifInstalled p
      { path := packageProgram apps a, name := storeLabel preview }).value = some _ :=
    ifInstalled_eq_some_iff.2 ⟨hfile, rfl⟩
  rw [hfound] at hsecond
  exact congrArg Executable.path (ifInstalled_eq_some_iff.1 hsecond).2

/-- Whether a folder holds an install does not depend on the order. -/
theorem isInstall_reordered (h : p.Reordered q) :
    IsInstall q base preview = IsInstall p base preview := by
  unfold IsInstall
  rw [h.isFile_eq]

/-- Whether the folder of installs settles its result does not depend on its order. -/
theorem NumbersSettled.reordered (hs : f.NumbersSettled p alternate preview)
    (h : p.Reordered q) : f.NumbersSettled q alternate preview := by
  intro base others hothers a ha b hb n hn hn' hmax
  obtain ⟨names, hnames, hperm⟩ := hothers.reordered h.symm
  rw [isInstall_reordered h] at hn hn' hmax
  refine hs base names hnames a (hperm.subset ha) b (hperm.subset hb) n hn hn' ?_
  intro c hc
  exact hmax c (hperm.symm.subset hc)

/-- Where the order of the numbered installs does not decide, what is found stays. -/
theorem NumbersSettled.numberedInstall (hs : f.NumbersSettled p alternate preview)
    (h : p.Reordered q) (hfound : (f.numberedInstall p alternate preview).value = some exe) :
    (f.numberedInstall q alternate preview).value = some exe := by
  obtain ⟨base, names, name, n, hlists, hname, rfl⟩ := numberedInstall_eq_some_iff.1 hfound
  obtain ⟨others, hothers, hperm⟩ := hlists.reordered h
  have hsame : installed? q base preview = installed? p base preview := by
    unfold installed?
    rw [h.isFile_eq]
  obtain ⟨first, k, hfirst⟩ := FirstGreatest.exists_of_some (hperm.subset hname.mem) hname.1
  obtain rfl : k = n :=
    Nat.le_antisymm (hname.le (hperm.symm.subset hfirst.mem) hfirst.1)
      (hfirst.le (hperm.subset hname.mem) hname.1)
  have heq : installedProgram base name = installedProgram base first := by
    refine hs base names hlists name hname.mem first (hperm.symm.subset hfirst.mem) k
      (installed?_eq_some_iff.1 hname.1) (installed?_eq_some_iff.1 hfirst.1) ?_
    intro c hc m hm
    exact hname.le hc (installed?_eq_some_iff.2 hm)
  rw [heq]
  exact numberedInstall_eq_some_iff.2 ⟨base, others, first, k, hothers, hsame ▸ hfirst, rfl⟩

/-- What is found of numbered installs if one of the greatest is listed first. -/
theorem numberedInstall_front (hlists : f.Lists p alternate base names)
    (hn : IsInstall p base preview a n)
    (hmax : ∀ c ∈ names, ∀ m, IsInstall p base preview c m → m ≤ n) :
    (f.numberedInstall (p.withListing base (a :: names.erase a)) alternate preview).value =
      some { path := installedProgram base a, name := f.installLabel alternate preview } := by
  obtain ⟨folder, hfolder, rfl, -⟩ := hlists
  refine numberedInstall_eq_some_iff.2
    ⟨_, a :: names.erase a, a, n, ⟨folder, hfolder, rfl, if_pos rfl⟩, ?_, rfl⟩
  refine (FirstGreatest.cons_of_some (installed?_eq_some_iff.2 hn)).2 (Or.inl ⟨rfl, rfl, ?_⟩)
  intro c hc m hm
  exact hmax c (List.mem_of_mem_erase hc) m (installed?_eq_some_iff.1 hm)

/-- An order of the numbered installs that decides leads to different runtimes. -/
theorem numbersSettled_of_forall (h : ∀ q, p.Reordered q →
    (f.numberedInstall q alternate preview).value = (f.numberedInstall p alternate preview).value) :
    f.NumbersSettled p alternate preview := by
  intro base names hlists a ha b hb n hn hn' hmax
  obtain ⟨-, -, -, hlisting⟩ := id hlists
  have hfirst := h _ (.withListing hlisting (List.perm_cons_erase ha))
  have hsecond := h _ (.withListing hlisting (List.perm_cons_erase hb))
  rw [numberedInstall_front hlists hn hmax] at hfirst
  rw [numberedInstall_front hlists hn' hmax, ← hfirst] at hsecond
  exact (congrArg Executable.path (Option.some.inj hsecond)).symm

/-! ## When the order makes no difference -/

/-- The place of a runtime of the Store. -/
def storePlace (preview : Bool) : Candidate := if preview then .previewStore else .stableStore

/-- The place of a numbered install. -/
def numberPlace (alternate preview : Bool) : Candidate :=
  if alternate then if preview then .previewAlternateBitness else .stableAlternateBitness
  else if preview then .preview else .stable

theorem resolve_storePlace (f : Finder) (p : Probe) (preview : Bool) :
    f.resolve p (storePlace preview) = f.storeInstall p preview := by
  cases preview <;> rfl

theorem resolve_numberPlace (hos : f.platform.os = .windows) (p : Probe)
    (alternate preview : Bool) :
    f.resolve p (numberPlace alternate preview) = f.numberedInstall p alternate preview := by
  have hwindows : f.platform.os.isWindows = true := by rw [hos]; rfl
  cases alternate <;> cases preview <;> simp [numberPlace, resolve, hwindows]

/-- The places that are searched by listing a folder are those of the Store and of numbered
installs. -/
theorem listedPlaces_cases (hc : c ∈ listedPlaces) :
    (∃ preview, c = storePlace preview) ∨
      ∃ alternate preview, c = numberPlace alternate preview := by
  revert hc
  cases c <;> decide

/-- Only a runtime of the Store bears the name of one. -/
theorem eq_storePlace (h : f.placeLabel c = storeLabel preview) : c = storePlace preview := by
  have hlabels (narrow wide : Bool) :
      Finder.placeLabel ⟨⟨.windows, narrow, wide⟩, .none, []⟩ c = storeLabel preview →
        c = storePlace preview := by
    cases narrow <;> cases wide <;> cases preview <;> cases c <;> decide +kernel
  exact hlabels f.platform.systemIs64Bit f.platform.processIs64Bit h

/-- **When the order of listings makes no difference.**  All file systems that differ from one in
the order of listings only have the same runtimes exactly if no order decides there: on Windows, a
package folder with its program is the only one of its kind, and so is the numbered install of the
greatest number.  A runtime of the Store is found exactly if the first package folder that is listed
has its program. -/
theorem order_irrelevant_iff (f : Finder) (p : Probe) :
    ((∀ q, p.Reordered q → (f.all q).value = (f.all p).value) ↔
      (f.platform.os = .windows → (∀ preview, f.StoreSettled p preview) ∧
        ∀ alternate preview, f.NumbersSettled p alternate preview)) ∧
    (f.platform.os = .windows → ∀ preview,
      (∃ exe ∈ f.defaults p, exe.name = storeLabel preview) ↔
        ∃ apps names name, f.ListsApps p apps names ∧
          names.find? (isStoreFolder preview) = some name ∧
          p.isFile (packageProgram apps name) = true) := by
  have hplaces {c : Candidate} (hc : c ∈ listedPlaces) : c ∈ candidates .windows := by
    revert hc
    cases c <;> decide
  have hstorePlace (preview : Bool) : storePlace preview ∈ candidates .windows :=
    hplaces (by cases preview <;> decide)
  refine ⟨⟨fun hall hos => ⟨fun preview => ?_, fun alternate preview => ?_⟩,
      fun hsettled q hq => ?_⟩,
    fun hos preview => ⟨?_, ?_⟩⟩
  · refine storeSettled_of_forall fun q hq => ?_
    have hplace := (all_reordered_iff hq).1 (hall q hq) (storePlace preview)
      (hos ▸ hstorePlace preview)
    rwa [resolve_storePlace, resolve_storePlace] at hplace
  · refine numbersSettled_of_forall fun q hq => ?_
    have hmem : numberPlace alternate preview ∈ candidates .windows :=
      hplaces (by cases alternate <;> cases preview <;> decide)
    have hplace := (all_reordered_iff hq).1 (hall q hq) _ (hos ▸ hmem)
    rwa [resolve_numberPlace hos, resolve_numberPlace hos] at hplace
  · refine (all_reordered_iff hq).2 fun c hc => ?_
    by_cases hlisted : f.platform.os = .windows ∧ c ∈ listedPlaces
    · obtain ⟨hos, hlisted⟩ := hlisted
      obtain ⟨hstore, hnumbers⟩ := hsettled hos
      rcases listedPlaces_cases hlisted with ⟨preview, rfl⟩ | ⟨alternate, preview, rfl⟩
      · rw [resolve_storePlace, resolve_storePlace]
        refine Option.ext fun exe => ⟨?_, (hstore preview).storeInstall hq⟩
        exact ((hstore preview).reordered hq).storeInstall hq.symm
      · rw [resolve_numberPlace hos, resolve_numberPlace hos]
        refine Option.ext fun exe => ⟨?_, (hnumbers alternate preview).numberedInstall hq⟩
        exact ((hnumbers alternate preview).reordered hq).numberedInstall hq.symm
    · rw [resolve_reordered hq hc fun hos hmem => hlisted ⟨hos, hmem⟩]
  · rintro ⟨exe, hexe, hname⟩
    obtain ⟨c, hc, hfound⟩ := List.mem_filterMap.1 hexe
    rw [hos] at hc
    obtain rfl := eq_storePlace ((resolve_name hos hc hfound).symm.trans hname)
    rw [resolve_storePlace] at hfound
    obtain ⟨apps, names, name, hlists, hfind, hfile, -⟩ := storeInstall_eq_some_iff.1 hfound
    exact ⟨apps, names, name, hlists, hfind, hfile⟩
  · rintro ⟨apps, names, name, hlists, hfind, hfile⟩
    have hfound := storeInstall_eq_some_iff.2 ⟨apps, names, name, hlists, hfind, hfile, rfl⟩
    rw [← resolve_storePlace] at hfound
    exact ⟨_, List.mem_filterMap.2 ⟨storePlace preview, hos ▸ hstorePlace preview, hfound⟩, rfl⟩

/-- Of two package folders the second one that is listed has its program.  No runtime of the Store
is found, and in another order there is one. -/
theorem order_irrelevant_trial :
    let f : Finder :=
      ⟨⟨.windows, true, true⟩, { Environment.none with localAppData := some ⟨"/l"⟩ }, []⟩
    let folders := ["Microsoft.PowerShell_7.4.0.0_neutral_~_8wekyb3d8bbwe",
      "Microsoft.PowerShell_8wekyb3d8bbwe"]
    let p : Probe :=
      ⟨fun x => x.text = "/l/Microsoft/WindowsApps/Microsoft.PowerShell_8wekyb3d8bbwe/pwsh.exe",
        fun x => x.text = "/l/Microsoft/WindowsApps", fun _ => some folders⟩
    f.platform.os = .windows ∧ ¬f.StoreSettled p false ∧
      (¬∃ exe ∈ f.defaults p, exe.name = storeLabel false) ∧
      ∃ q, p.Reordered q ∧ (f.all q).value ≠ (f.all p).value := by
  intro f folders p
  have hlists : f.ListsApps p ⟨"/l/Microsoft/WindowsApps"⟩ folders :=
    ⟨⟨"/l"⟩, rfl, by decide +kernel, by decide +kernel, rfl⟩
  obtain ⟨hall, hstore⟩ := order_irrelevant_iff f p
  have hunsettled : ¬f.StoreSettled p false := by
    intro hsettled
    have heq := hsettled _ _ hlists (folders[1]) (by decide) (folders[0]) (by decide)
      (by decide +kernel) (by decide +kernel) (by decide +kernel)
    exact absurd heq (by decide +kernel)
  refine ⟨rfl, hunsettled, ?_, ?_⟩
  · rw [hstore rfl false]
    rintro ⟨apps, names, name, hlists', hfind, hfile⟩
    obtain ⟨rfl, rfl⟩ := hlists.unique hlists'
    have hfirst : folders.find? (isStoreFolder false) = some folders[0] := by decide +kernel
    obtain rfl := Option.some.inj (hfirst.symm.trans hfind)
    exact absurd hfile (by decide +kernel)
  · by_contra hnone
    have hsame : ∀ q, p.Reordered q → (f.all q).value = (f.all p).value := by
      intro q hq
      by_contra hne
      exact hnone ⟨q, hq, hne⟩
    exact hunsettled ((hall.1 hsame rfl).1 false)

end Finder

end SessionHost.Discovery
