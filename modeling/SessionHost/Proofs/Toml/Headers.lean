import SessionHost.Proofs.Toml.Sowing

/-!
# What a header does to a tree

A header does one of seven things to the tree of a document.  None of them touches the values in
the lines of a table that is there already: the trunk of the tree stays as it is.

Main definitions:

- `Placed`: what a header does to a tree, one constructor for each case.
- `Plot.Sound`: a header that can be written.
- `UsesOnce`: a header's own keys go to one place.

Main results:

- Theorem `Grove.place?_eq_some_iff`: a plot does what `Placed` says.
- Theorem `Placed.grove`, `Placed.trunk`: what a header preserves.
- Theorem `Grove.exists_plots`: headers as they were read are plots.
-/

namespace SessionHost.Toml

variable {A B E S T X : Entries}

/-- What the header of a plot does to a tree at a path. -/
inductive Placed (p : Plot) : List Key → Entries → Entries → Prop where
  /-- A new table. -/
  | table {S : Entries} (hp : p.doubled = false) (h : p.key.name ∉ names S) :
      Placed p [] S (S ++ [(p.key, .table p.info p.own)])
  /-- A table that so far only stood above other headers. -/
  | raised {A B X inner : Entries} {k : Key} (hp : p.doubled = false) (hk : k.name = p.key.name)
      (hA : k.name ∉ names A) (hB : k.name ∉ names B)
      (hown : addLeaves? (leaves [] p.own) inner = some X) :
      Placed p [] (A ++ (k, .table (.unnamed .aboveHeader) inner) :: B)
        (A ++ B ++ [(p.key, .table p.info X)])
  /-- A new array of tables. -/
  | array {S : Entries} (hp : p.doubled = true) (h : p.key.name ∉ names S) :
      Placed p [] S (S ++ [(p.key, .tables [(p.info, p.own)])])
  /-- Another element of an array of tables. -/
  | element {A B : Entries} {k : Key} {elements : List (TableInfo × Entries)}
      (hp : p.doubled = true) (hk : k.name = p.key.name) (hA : k.name ∉ names A)
      (hB : k.name ∉ names B) :
      Placed p [] (A ++ (k, .tables elements) :: B)
        (A ++ (k, .tables (elements ++ [(p.info, p.own)])) :: B)
  /-- In a new table that stands above the header. -/
  | above {S inner : Entries} {k : Key} {rest : List Key} (h : k.name ∉ names S)
      (hinner : Placed p rest [] inner) :
      Placed p (k :: rest) S (S ++ [(k, .table (.unnamed .aboveHeader) inner)])
  /-- In a table that is there. -/
  | within {A B inner changed : Entries} {k k' : Key} {rest : List Key} {info : TableInfo}
      (hk : k'.name = k.name) (hA : k'.name ∉ names A) (hB : k'.name ∉ names B)
      (hinner : Placed p rest inner changed) :
      Placed p (k :: rest) (A ++ (k', .table info inner) :: B)
        (A ++ (k', .table info changed) :: B)
  /-- In the last element of an array of tables. -/
  | last {A B inner changed : Entries} {k k' : Key} {rest : List Key}
      {elements : List (TableInfo × Entries)} {info : TableInfo} (hk : k'.name = k.name)
      (hA : k'.name ∉ names A) (hB : k'.name ∉ names B) (hinner : Placed p rest inner changed) :
      Placed p (k :: rest) (A ++ (k', .tables (elements ++ [(info, inner)])) :: B)
        (A ++ (k', .tables (elements ++ [(info, changed)])) :: B)

variable {p : Plot} {path : List Key}

/-- The leaves of a header's tree make it. -/
theorem LineForest.addLeaves?_nil (hE : LineForest E) :
    Toml.addLeaves? (leaves [] E) [] = some E :=
  hE.forest.addLeaves? fun _ _ => List.not_mem_nil

/-- A header does what one of the cases says. -/
theorem Grove.placed (hS : Grove S) (hp : LineForest p.own)
    (h : placeTable? p.doubled path p.key p.info (addLeaves? (leaves [] p.own)) S = some T) :
    Placed p path S T := by
  induction path generalizing S T with
  | nil =>
    unfold placeTable? at h
    split at h
    · next hdoubled hnone =>
      rw [hp.addLeaves?_nil] at h
      cases h
      exact .table hdoubled (find?_eq_none_iff.1 hnone)
    · next old inner hdoubled hfind =>
      split at h
      · next hkind =>
        obtain ⟨changed, hchanged, rfl⟩ := Option.map_eq_some_iff.1 h
        obtain ⟨A, k, B, rfl, hk, hA, hB⟩ := exists_split hfind hS.distinct
        rw [← hk] at hA hB ⊢
        rw [remove_split k hA hB]
        have hgrowth := hS.split.2
        cases hgrowth with
        | dotted => cases hkind
        | above => exact .raised hdoubled hk hA hB hchanged
        | header _ hheader => rw [hheader] at hkind; cases hkind
      · cases h
    · next hdoubled hnone =>
      rw [hp.addLeaves?_nil] at h
      cases h
      exact .array hdoubled (find?_eq_none_iff.1 hnone)
    · next elements hdoubled hfind =>
      rw [hp.addLeaves?_nil] at h
      obtain ⟨A, k, B, rfl, hk, hA, hB⟩ := exists_split hfind hS.distinct
      rw [← hk] at hA hB h
      rw [Option.map_some, replace_split k _ hA hB] at h
      cases h
      exact .element hdoubled hk hA hB
    · cases h
  | cons k rest ih =>
    rw [placeTable?] at h
    split at h
    · next hnone =>
      obtain ⟨inner, hinner, rfl⟩ := Option.map_eq_some_iff.1 h
      exact .above (find?_eq_none_iff.1 hnone) (ih grove_nil hinner)
    · cases h
    · next elements hfind =>
      split at h
      · next last hlast =>
        obtain ⟨changed, hchanged, rfl⟩ := Option.map_eq_some_iff.1 h
        obtain ⟨A, k', B, rfl, hk, hA, hB⟩ := exists_split hfind hS.distinct
        obtain ⟨more, rfl⟩ := List.getLast?_eq_some_iff.1 hlast
        have hgrove := (hS.split.2.element (t := last) (by simp)).2
        rw [← hk] at hA hB ⊢
        rw [replace_split k' _ hA hB, replaceLast, List.getLast?_concat]
        simp only [List.dropLast_concat]
        exact .last hk hA hB (ih hgrove hchanged)
      · cases h
    · next old inner hfind =>
      obtain ⟨changed, hchanged, rfl⟩ := Option.map_eq_some_iff.1 h
      obtain ⟨A, k', B, rfl, hk, hA, hB⟩ := exists_split hfind hS.distinct
      rw [← hk] at hA hB ⊢
      rw [replace_split k' _ hA hB]
      exact .within hk hA hB (ih hS.split.2.table hchanged)

/-- Each of the cases is what a header does. -/
theorem Placed.placeTable? (h : Placed p path S T) (hp : LineForest p.own) :
    Toml.placeTable? p.doubled path p.key p.info (addLeaves? (leaves [] p.own)) S = some T := by
  have hown := hp.addLeaves?_nil
  induction h with
  | table hdoubled h =>
    rw [hdoubled, placeTable?.eq_1 _ _ _ _ (find?_eq_none_iff.2 h), hown]
    rfl
  | @raised A B X inner k hdoubled hk hA hB hX =>
    rw [hdoubled, placeTable?.eq_2 _ _ _ _ _ _ (hk ▸ find?_split k hA), if_pos (unnamed_kind _),
      hX, ← hk, remove_split k hA hB]
    rfl
  | array hdoubled h =>
    rw [hdoubled, placeTable?.eq_3 _ _ _ _ (find?_eq_none_iff.2 h), hown]
    rfl
  | @element A B k elements hdoubled hk hA hB =>
    rw [hdoubled, placeTable?.eq_4 _ _ _ _ _ (hk ▸ find?_split k hA), hown, ← hk]
    simp only [Option.map_some]
    rw [replace_split k _ hA hB]
  | above h _ ih =>
    rw [Toml.placeTable?, find?_eq_none_iff.2 h]
    simp only
    rw [ih]
    rfl
  | @within A B inner changed k k' rest info hk hA hB _ ih =>
    rw [Toml.placeTable?, ← hk, find?_split k' hA]
    simp only
    rw [ih, Option.map_some, replace_split k' _ hA hB]
  | @last A B inner changed k k' rest elements info hk hA hB _ ih =>
    rw [Toml.placeTable?, ← hk, find?_split k' hA]
    simp only [List.getLast?_concat]
    rw [ih, Option.map_some, replace_split k' _ hA hB, replaceLast, List.getLast?_concat]
    simp only [List.dropLast_concat]

/-- **A plot does to a tree what one of the cases says.** -/
theorem Grove.place?_eq_some_iff (hS : Grove S) (hp : LineForest p.own) :
    p.place? S = some T ↔ Placed p p.path S T :=
  ⟨hS.placed hp, fun h => h.placeTable? hp⟩

/-! ## What a header preserves -/

@[simp] theorem Plot.kind_info (p : Plot) : p.info.kind = .header := rfl

/-- A header leaves the trunk as it is. -/
theorem Placed.trunk (h : Placed p path S T) : trunk T = trunk S := by
  have hnamed (k : Key) (E : Entries) : itemTrunk k (.table p.info E) = [] :=
    itemTrunk_of_kind (by simp) k E
  have habove (k : Key) (E : Entries) : itemTrunk k (.table (.unnamed .aboveHeader) E) = [] :=
    itemTrunk_of_kind (by simp) k E
  induction h with
  | table => rw [trunk_concat, hnamed, List.append_nil]
  | raised =>
    rw [trunk_concat, hnamed, trunk_split, habove, trunk_append, List.append_nil, List.nil_append]
  | array => rw [trunk_concat, itemTrunk, List.append_nil]
  | element => rw [trunk_split, trunk_split, itemTrunk, itemTrunk]
  | above => rw [trunk_concat, habove, List.append_nil]
  | within _ _ _ _ ih => rw [trunk_split, trunk_split, itemTrunk, itemTrunk, ih]
  | last => rw [trunk_split, trunk_split, itemTrunk, itemTrunk]

/-- A plot that can be written. -/
structure Plot.Sound (p : Plot) : Prop where
  path : ∀ k ∈ p.path, IsInnerKey k
  key : IsLeafKey IsBlank IsBlank p.key
  root : ∀ k ∈ (p.path ++ [p.key]).head?, k.behindDot = ""
  height : p.path.length < maxKeyParts
  before : IsLead p.before.toList
  after : LineTail p.after.toList
  own : LineForest p.own

/-- A table with a header could stand in a document. -/
theorem growth_header {k : Key} (hk : IsLeafKey IsBlank IsBlank k) (hE : Grove E) (p : Plot) :
    Growth k (.table p.info E) := .header hk rfl hE.distinct hE.growth

/-- The keys of a header in a table that stood above others. -/
theorem Plot.Sound.planted (hp : p.Sound) {k : Key} {inner : Entries}
    (hinner : Growth k (.table (.unnamed .aboveHeader) inner))
    (h : addLeaves? (leaves [] p.own) inner = some X) : Planted inner X := by
  cases hinner with
  | above _ htrunk hd hgrowth => exact .of_addLeaves? ⟨hd, hgrowth⟩ htrunk hp.own.sound h
  | header _ hkind => cases hkind

/-- **A header makes of a tree another one.** -/
theorem Placed.grove (hS : Grove S) (hp : p.Sound) (hpath : ∀ k ∈ path, IsInnerKey k)
    (h : Placed p path S T) : Grove T := by
  have hown := hp.own.grove
  induction h with
  | table _ h => exact hS.concat h (growth_header hp.key hown p)
  | @raised A B X inner k _ hk hA hB hX =>
    obtain ⟨hAB, hgrowth⟩ := hS.split
    refine hAB.concat ?_ (growth_header hp.key (hp.planted hgrowth hX).grove p)
    rw [← hk, names_append, List.mem_append]
    exact fun hmem => hmem.elim hA hB
  | array _ h =>
    refine hS.concat h (Growth.tables_iff.2 ⟨hp.key, fun t ht => ?_⟩)
    obtain rfl := List.mem_singleton.1 ht
    exact ⟨rfl, hown⟩
  | element =>
    obtain ⟨hk, helements⟩ := Growth.tables_iff.1 hS.split.2
    refine hS.change (Growth.tables_iff.2 ⟨hk, fun t ht => ?_⟩)
    rcases List.mem_append.1 ht with ht | ht
    · exact helements t ht
    · obtain rfl := List.mem_singleton.1 ht
      exact ⟨rfl, hown⟩
  | above h hinner ih =>
    have hgrove := ih grove_nil fun k hk => hpath k (List.mem_cons_of_mem _ hk)
    exact hS.concat h
      (.above (hpath _ List.mem_cons_self) hinner.trunk hgrove.distinct hgrove.growth)
  | within _ _ _ hinner ih =>
    have hgrowth := hS.split.2
    have hgrove := ih hgrowth.table fun k hk => hpath k (List.mem_cons_of_mem _ hk)
    exact hS.change (hgrowth.change hgrove hinner.trunk)
  | last _ _ _ hinner ih =>
    obtain ⟨hk, helements⟩ := Growth.tables_iff.1 hS.split.2
    obtain ⟨hkind, hlast⟩ := helements _ (List.mem_append_right _ List.mem_cons_self)
    refine hS.change (Growth.tables_iff.2 ⟨hk, fun t ht => ?_⟩)
    rcases List.mem_append.1 ht with ht | ht
    · exact helements t (List.mem_append_left _ ht)
    · obtain rfl := List.mem_singleton.1 ht
      exact ⟨hkind, ih hlast fun k hk => hpath k (List.mem_cons_of_mem _ hk)⟩

/-- Headers, one by one, make of a tree another one with the same trunk. -/
theorem Grove.placePlots? {ps : List Plot} (hS : Grove S) (hps : ∀ p ∈ ps, p.Sound)
    (h : placePlots? ps S = some T) : Grove T ∧ Toml.trunk T = Toml.trunk S := by
  induction ps generalizing S with
  | nil =>
    cases h
    exact ⟨hS, rfl⟩
  | cons p rest ih =>
    obtain ⟨S₁, hS₁, hrest⟩ := Option.bind_eq_some_iff.1 h
    have hp := hps p List.mem_cons_self
    have hplaced := (hS.place?_eq_some_iff hp.own).1 hS₁
    obtain ⟨hT, htrunk⟩ := ih (hplaced.grove hS hp hp.path)
      (fun q hq => hps q (List.mem_cons_of_mem _ hq)) hrest
    exact ⟨hT, htrunk.trans hplaced.trunk⟩

/-! ## Headers as they are read -/

/-- What comes of a header's own keys depends on what they make of one table, which has no lines:
either nothing is there, or a table that stands above other headers. -/
def UsesOnce (run : (Entries → Option Entries) → Option Entries)
    (body : Entries → Option Entries) (T : Entries) : Prop :=
  ∃ I X, Grove I ∧ trunk I = [] ∧ body I = some X ∧
    ∀ body' : Entries → Option Entries, body' I = some X → run body' = some T

variable {I : Entries} {run : (Entries → Option Entries) → Option Entries}
  {body : Entries → Option Entries} {g : Entries → Entries}

/-- The keys go into a table that is at hand. -/
theorem UsesOnce.here (hI : Grove I) (htrunk : trunk I = []) (h : (body I).map g = some T) :
    UsesOnce (fun body => (body I).map g) body T := by
  obtain ⟨X, hX, rfl⟩ := Option.map_eq_some_iff.1 h
  exact ⟨I, X, hI, htrunk, hX, fun _ hX' => congrArg (Option.map g) hX'⟩

/-- The keys go into a table further down. -/
theorem UsesOnce.below (hrun : ∀ J, run body = some J → UsesOnce run body J)
    (h : (run body).map g = some T) : UsesOnce (fun body => (run body).map g) body T := by
  obtain ⟨J, hJ, rfl⟩ := Option.map_eq_some_iff.1 h
  obtain ⟨I, X, hI, htrunk, hX, hall⟩ := hrun J hJ
  exact ⟨I, X, hI, htrunk, hX, fun body' hX' => congrArg (Option.map g) (hall body' hX')⟩

/-- A header uses its own keys at one place; whatever makes the same of that place does the same. -/
theorem Grove.usesOnce {doubled : Bool} {key : Key} {info : TableInfo} (hS : Grove S)
    (h : placeTable? doubled path key info body S = some T) :
    UsesOnce (fun body => placeTable? doubled path key info body S) body T := by
  induction path generalizing S T with
  | nil =>
    unfold placeTable? at h ⊢
    split at h
    · exact .here grove_nil rfl h
    · next old inner hfind =>
      split at h
      · next habove =>
        obtain ⟨A, k, B, rfl, -⟩ := exists_split hfind hS.distinct
        have hgrowth := hS.split.2
        have htrunk : Toml.trunk inner = [] := by
          cases hgrowth with
          | dotted => cases habove
          | above _ htrunk => exact htrunk
          | header _ hkind => rw [hkind] at habove; cases habove
        simp only [if_pos habove]
        exact .here hgrowth.table htrunk h
      · cases h
    · exact .here grove_nil rfl h
    · exact .here grove_nil rfl h
    · cases h
  | cons k rest ih =>
    simp only [placeTable?] at h ⊢
    split at h
    · exact .below (fun _ => ih grove_nil) h
    · cases h
    · next elements hfind =>
      split at h
      · next last hlast =>
        obtain ⟨A, k', B, rfl, -⟩ := exists_split hfind hS.distinct
        exact .below (fun _ => ih (hS.split.2.element (List.mem_of_getLast? hlast)).2) h
      · cases h
    · next old inner hfind =>
      obtain ⟨A, k', B, rfl, -⟩ := exists_split hfind hS.distinct
      exact .below (fun _ => ih hS.split.2.table) h

/-- The plot of a sheet whose own keys make a tree. -/
def Sheet.plot (s : Sheet) (own : Entries) : Plot :=
  ⟨s.doubled, s.path, s.key, s.position, s.before, s.after, own⟩

/-- **A header as it was read is one with a tree of its own keys**, as they are written again. -/
theorem Grove.exists_plot {s : Sheet} (hS : Grove S) (hs : s.Sound) (h : s.place? S = some T) :
    ∃ own, (s.plot own).Sound ∧ (s.plot own).place? S = some T := by
  obtain ⟨I, X, hI, htrunk, hX, hall⟩ := hS.usesOnce h
  have hplanted := Planted.of_addLeaves? hI htrunk hs.leaves hX
  exact ⟨lines X, ⟨hs.path, hs.key, hs.root, hs.height, hs.before, hs.after, hplanted.lineForest⟩,
    hall _ hplanted.addLeaves?_lines⟩

/-- Headers as they were read, one by one. -/
theorem Grove.exists_plots {shs : List Sheet} (hS : Grove S) (hshs : ∀ s ∈ shs, s.Sound)
    (h : placeSheets? shs S = some T) :
    ∃ ps : List Plot, (∀ p ∈ ps, p.Sound) ∧ ps.map Plot.position = shs.map Sheet.position ∧
      Toml.placePlots? ps S = some T := by
  induction shs generalizing S with
  | nil => exact ⟨[], by simp, rfl, h⟩
  | cons s rest ih =>
    obtain ⟨S₁, hS₁, hrest⟩ := Option.bind_eq_some_iff.1 h
    obtain ⟨hsound, hsounds⟩ := List.forall_mem_cons.1 hshs
    obtain ⟨own, hp, hplace⟩ := hS.exists_plot hsound hS₁
    have hS₁' := ((hS.place?_eq_some_iff hp.own).1 hplace).grove hS hp hp.path
    obtain ⟨ps, hps, hpositions, hall⟩ := ih hS₁' hsounds hrest
    refine ⟨s.plot own :: ps, List.forall_mem_cons.2 ⟨hp, hps⟩, ?_, ?_⟩
    · rw [List.map_cons, List.map_cons, hpositions]
      rfl
    · rw [Toml.placePlots?, hplace]
      exact hall

end SessionHost.Toml
