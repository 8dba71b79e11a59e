import SessionHost.Proofs.Toml.Lines

/-!
# Tables put at their headers

A section of a document puts a table at the path of its header and adds its own keys to it.  The
keys are told by the tree that they make in an empty table.

Main definitions:

- `Sheet.place?`: a header as it was read, put at its path.
- `Plot`, `Plot.place?`: a header with the tree of its own keys, put at its path.
- `LineForest`: a tree that keys with dots have made in a document.

Main results:

- Theorem `addMembers?_eq`, `addSections?_eq`: a document in terms of leaves and sheets.
- Theorem `LineForest.addLeaves?`: leaves of a document make such a tree.
-/

namespace SessionHost.Toml

variable {E F I T X : Entries}

/-! ## Statements as leaves and sheets -/

/-- The lines of a section are added as leaves. -/
theorem addMembers?_eq {body : List (List Char × List KeyPart × List Char × Value)} {ls : List Leaf}
    (h : List.Forall₂ IsMember body ls) (E : Entries) :
    addMembers? body E = addLeaves? ls E := by
  induction h generalizing E with
  | nil => rfl
  | @cons m l body ls hm _ ih =>
    rw [addMembers?, List.foldlM_cons, hm.keys]
    simp only [Option.bind_eq_bind, Option.bind_some]
    rw [hm.text, hm.value, addLeaves?]
    exact congrArg _ (funext fun E => ih E)

/-- Puts the table of a sheet at its path. -/
def Sheet.place? (s : Sheet) (entries : Entries) : Option Entries :=
  placeTable? s.doubled s.path s.key s.info (addLeaves? s.leaves) entries

/-- Puts the tables of sheets at their paths, one by one. -/
def placeSheets? : List Sheet → Entries → Option Entries
  | [], entries => some entries
  | s :: rest, entries => (s.place? entries).bind (placeSheets? rest)

/-- A section of a document goes to its place as a sheet. -/
theorem addSection?_eq {c : Section} {s : Sheet} (h : IsSection c s) (E : Entries) :
    addSection? c s.position E = s.place? E := by
  rw [addSection?, h.keys]
  simp only [Option.bind_eq_bind, Option.bind_some]
  rw [h.doubled, h.before, h.after,
    show addMembers? c.body = addLeaves? s.leaves from funext (addMembers?_eq h.body)]
  rfl

/-- Sections go to their places one by one, numbered from the first. -/
theorem addSections?_eq {cs : List Section} {shs : List Sheet} (h : List.Forall₂ IsSection cs shs)
    {position : Nat} (hpositions : shs.map Sheet.position = List.range' position shs.length)
    (E : Entries) : addSections? position E cs = placeSheets? shs E := by
  induction h generalizing position E with
  | nil => rfl
  | @cons c s cs shs hc _ ih =>
    rw [List.map_cons, List.length_cons, List.range'_succ, List.cons.injEq] at hpositions
    obtain ⟨rfl, hrest⟩ := hpositions
    rw [addSections?, addSection?_eq hc, placeSheets?]
    cases s.place? E with
    | none => rfl
    | some E₁ => exact ih hrest E₁

/-- What stands under other names is left alone. -/
theorem addMember?_append {path : List Key} {key : Key} {item : Item}
    (h : ∀ k ∈ (path ++ [key]).head?, k.name ∉ names I) (F : Entries) :
    addMember? path key item (I ++ F) = (addMember? path key item F).map (I ++ ·) := by
  cases path with
  | nil =>
    have hkey := h key rfl
    rw [addMember?, addMember?, find?_append_of_notMem hkey]
    split
    · rfl
    · simp
  | cons k rest =>
    have hk := h k rfl
    rw [addMember?, addMember?, find?_append_of_notMem hk]
    split
    · simp [Option.map_map, Function.comp_def]
    · split
      · rfl
      · simp [Option.map_map, Function.comp_def, replace_append, replace_of_notMem hk]
    · rfl

/-! ## Trees of a document -/

/-- A tree that keys with dots have made in a document. -/
structure LineForest (entries : Entries) : Prop where
  forest : Forest IsInnerKey (IsLeafKey IsLead IsBlank) IsLineText maxKeyParts entries
  root : RootKeys entries

theorem lineForest_nil : LineForest [] := ⟨forest_nil, by intro e he; cases he⟩

/-- The leaves of a tree of lines are leaves of lines. -/
theorem LineForest.sound (h : LineForest E) : ∀ l ∈ leaves [] E, LineLeaf l :=
  h.forest.sound h.root

/-- Leaves of lines keep a tree of lines one. -/
theorem LineForest.addLeaves? {ls : List Leaf} (hE : LineForest E) (hls : ∀ l ∈ ls, LineLeaf l)
    (h : Toml.addLeaves? ls E = some T) : LineForest T := by
  induction ls generalizing E with
  | nil =>
    cases h
    exact hE
  | cons l rest ih =>
    obtain ⟨E₁, hl, hrest⟩ := Option.bind_eq_some_iff.1 h
    have hleaf := hls l List.mem_cons_self
    exact ih ⟨hE.forest.addMember? hleaf.1.path hleaf.1.key hleaf.1.text hleaf.1.height hl,
      hE.root.addMember? hleaf.2 hl⟩ (fun l hl => hls l (List.mem_cons_of_mem _ hl)) hrest

/-! ## Plots -/

/-- A header with the tree of its own keys. -/
structure Plot where
  doubled : Bool
  path : List Key
  key : Key
  position : Nat
  before : String
  after : String
  own : Entries

/-- The header's information. -/
def Plot.info (p : Plot) : TableInfo := ⟨.header, p.position, p.before, p.after⟩

/-- The header with the leaves of its tree. -/
def Plot.sheet (p : Plot) : Sheet :=
  ⟨p.doubled, p.path, p.key, p.position, p.before, p.after, leaves [] p.own⟩

/-- Puts the table of a plot at its path, with its own keys behind what is there. -/
def Plot.place? (p : Plot) (entries : Entries) : Option Entries := p.sheet.place? entries

theorem Plot.place?_eq (p : Plot) (E : Entries) : p.place? E =
    placeTable? p.doubled p.path p.key p.info (addLeaves? (leaves [] p.own)) E := rfl

/-- Puts the tables of plots at their paths, one by one. -/
def placePlots? : List Plot → Entries → Option Entries
  | [], entries => some entries
  | p :: rest, entries => (p.place? entries).bind (placePlots? rest)

theorem placeSheets?_eq (ps : List Plot) (E : Entries) :
    placeSheets? (ps.map Plot.sheet) E = placePlots? ps E := by
  induction ps generalizing E with
  | nil => rfl
  | cons p rest ih =>
    rw [List.map_cons, placeSheets?, placePlots?]
    exact congrArg _ (funext fun _ => ih _)

/-- Placing goes on where it has stopped. -/
theorem placePlots?_append (ps qs : List Plot) (E : Entries) :
    placePlots? (ps ++ qs) E = (placePlots? ps E).bind (placePlots? qs) := by
  induction ps generalizing E with
  | nil => rfl
  | cons p rest ih =>
    rw [List.cons_append, placePlots?, placePlots?, Option.bind_assoc]
    exact congrArg _ (funext fun _ => ih _)

end SessionHost.Toml
