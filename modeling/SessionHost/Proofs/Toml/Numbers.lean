import SessionHost.Proofs.Toml.Regrowth

/-!
# The numbers of headers

Headers are numbered as they are read, and written in the order of their numbers.  Nothing else
depends on the numbers: headers with other numbers make the same tree with other numbers, and it
says the same.

Main definitions:

- `renumber`: a tree with other numbers.

Main results:

- Theorem `placePlots?_renumber`: headers with other numbers make the tree with other numbers.
- Theorem `entriesMeaning_renumber`, `entrySheets_renumber`: what it says, and what is written.
-/

namespace SessionHost.Toml

variable {A B E F S T X : Entries} {p : Plot} {path : List Key} (f : Nat → Nat)

/-! ## Trees with other numbers -/

/-- The information on a header with another number. -/
def TableInfo.renumber (info : TableInfo) : TableInfo :=
  if info.kind = .header then { info with position := f info.position } else info

mutual

/-- The tree with other numbers. -/
def renumber : List (Key × Item) → List (Key × Item)
  | [] => []
  | (key, item) :: rest => (key, renumberItem item) :: renumber rest

/-- The item with other numbers. -/
def renumberItem : Item → Item
  | .value text v => .value text v
  | .table info entries => .table (info.renumber f) (renumber entries)
  | .tables elements => .tables (renumberElements elements)

/-- The elements of an array of tables with other numbers. -/
def renumberElements :
    List (TableInfo × List (Key × Item)) → List (TableInfo × List (Key × Item))
  | [] => []
  | (info, entries) :: rest => (info.renumber f, renumber entries) :: renumberElements rest

end

theorem renumber_header {info : TableInfo} (h : info.kind = .header) :
    info.renumber f = { info with position := f info.position } := if_pos h

/-- Only headers have numbers. -/
theorem renumber_of_kind {info : TableInfo} (h : info.kind ≠ .header) : info.renumber f = info :=
  if_neg h

@[simp] theorem kind_renumber (info : TableInfo) : (info.renumber f).kind = info.kind := by
  rw [TableInfo.renumber]
  split <;> rfl

/-- Two halves are numbered anew one by one. -/
theorem renumber_append (A B : Entries) : renumber f (A ++ B) = renumber f A ++ renumber f B := by
  induction A with
  | nil => rfl
  | cons e rest ih => rw [List.cons_append, renumber, renumber, ih, List.cons_append]

theorem renumber_split (A B : Entries) (k : Key) (item : Item) :
    renumber f (A ++ (k, item) :: B) =
      renumber f A ++ (k, renumberItem f item) :: renumber f B := by
  rw [renumber_append, renumber]

theorem renumber_concat (A : Entries) (k : Key) (item : Item) :
    renumber f (A ++ [(k, item)]) = renumber f A ++ [(k, renumberItem f item)] := by
  rw [renumber_split, renumber]

theorem renumberElements_concat (ts : List (TableInfo × List (Key × Item))) (info : TableInfo)
    (E : Entries) : renumberElements f (ts ++ [(info, E)]) =
      renumberElements f ts ++ [(info.renumber f, renumber f E)] := by
  induction ts with
  | nil => rfl
  | cons t rest ih =>
    rw [List.cons_append, renumberElements, ih, renumberElements, List.cons_append]

/-- New numbers keep the names. -/
@[simp] theorem names_renumber (E : Entries) : names (renumber f E) = names E := by
  induction E with
  | nil => rfl
  | cons e rest ih => rw [renumber, names_cons, names_cons, ih]

/-- What is found under a name is found with its new numbers. -/
theorem find?_renumber (name : String) (E : Entries) :
    find? name (renumber f E) = (find? name E).map (renumberItem f) := by
  induction E with
  | nil => rfl
  | cons e rest ih =>
    obtain ⟨k, item⟩ := e
    by_cases hk : k.name = name
    · subst hk
      rw [renumber, find?_cons_self, find?_cons_self]
      rfl
    · rw [renumber, find?_cons_of_ne hk, find?_cons_of_ne hk, ih]

/-- Replacing and numbering anew can be done in either order. -/
theorem renumber_replace (name : String) (item : Item) (E : Entries) :
    renumber f (replace name item E) = replace name (renumberItem f item) (renumber f E) := by
  induction E with
  | nil => rfl
  | cons e rest ih =>
    obtain ⟨k, other⟩ := e
    by_cases hk : k.name = name
    · subst hk
      rw [replace_cons_self, renumber, renumber, replace_cons_self, ih]
    · rw [replace_cons_of_ne hk, renumber, renumber, replace_cons_of_ne hk, ih]

/-- A value with its keys has no number, and sees none. -/
theorem addMember?_renumber (path : List Key) (key : Key) (text : String) (v : Value)
    (E : Entries) : addMember? path key (.value text v) (renumber f E) =
      (addMember? path key (.value text v) E).map (renumber f) := by
  induction path generalizing E with
  | nil =>
    rw [addMember?, addMember?, find?_renumber, Option.isSome_map]
    split
    · rfl
    · rw [Option.map_some, renumber_concat]
      rfl
  | cons k rest ih =>
    rw [addMember?, addMember?, find?_renumber]
    cases find? k.name E with
    | none =>
      have hnil := ih []
      rw [renumber] at hnil
      simp only [Option.map_none]
      conv_lhs => rw [hnil]
      rw [Option.map_map, Option.map_map]
      refine congrArg (Option.map · _) (funext fun inner => ?_)
      simp only [Function.comp]
      rw [renumber_concat, renumberItem, renumber_of_kind f (by simp)]
    | some item =>
      cases item with
      | value => rfl
      | tables => rfl
      | table info inner =>
        simp only [Option.map_some, renumberItem, kind_renumber]
        by_cases hkind : info.kind = .header
        · rw [if_pos hkind, if_pos hkind]
          rfl
        · rw [if_neg hkind, if_neg hkind, ih, Option.map_map, Option.map_map]
          refine congrArg (Option.map · _) (funext fun changed => ?_)
          simp only [Function.comp]
          rw [renumber_replace, renumberItem, renumber_of_kind f hkind,
            renumber_of_kind f (by simp)]

/-- Leaves are added alike, whatever the numbers are. -/
theorem addLeaves?_renumber (ls : List Leaf) (E : Entries) :
    addLeaves? ls (renumber f E) = (addLeaves? ls E).map (renumber f) := by
  induction ls generalizing E with
  | nil => rfl
  | cons l rest ih =>
    rw [addLeaves?, addLeaves?, addLeaf?, addLeaf?, addMember?_renumber]
    cases addMember? l.path l.key (.value l.text l.value) E with
    | none => rfl
    | some E₁ => exact ih E₁

section Forest

variable {IsInner IsLeaf : Key → Prop} {IsText : String → Value → Prop} {n : Nat}

/-- A table without numbers stays as it is. -/
theorem renumber_of_each (h : ∀ e ∈ E, renumberItem f e.2 = e.2) : renumber f E = E := by
  induction E with
  | nil => rfl
  | cons e rest ih =>
    rw [renumber, h e List.mem_cons_self, ih fun e he => h e (List.mem_cons_of_mem _ he)]

/-- A tree that keys with dots have made has no numbers. -/
theorem Branch.renumberItem {k : Key} {item : Item} (h : Branch IsInner IsLeaf IsText n k item) :
    renumberItem f item = item := by
  induction h with
  | leaf => rfl
  | dotted _ _ _ _ ih => rw [Toml.renumberItem, renumber_of_kind f (by simp), renumber_of_each f ih]

/-- Keys with dots have no numbers. -/
theorem Forest.renumber (hE : Forest IsInner IsLeaf IsText n E) : renumber f E = E :=
  renumber_of_each f fun e he => (hE.branches e he).renumberItem f

end Forest

/-! ## Headers with other numbers -/

/-- The plot with another number. -/
def Plot.renumber (p : Plot) : Plot := { p with position := f p.position }

theorem Plot.info_renumber (p : Plot) : (p.renumber f).info = p.info.renumber f :=
  (renumber_header f p.kind_info).symm

/-- A new name is new with other numbers, too. -/
theorem notMem_renumber {name : String} (h : name ∉ names E) : name ∉ names (renumber f E) := by
  rwa [names_renumber]

/-- A header goes to its place alike, whatever the numbers are. -/
theorem Placed.renumber (h : Placed p path S T) (hp : LineForest p.own) :
    Placed (p.renumber f) path (renumber f S) (renumber f T) := by
  have hown : Toml.renumber f p.own = p.own := hp.forest.renumber f
  have hinfo := p.info_renumber f
  induction h with
  | table hdoubled hS =>
    rw [renumber_concat, renumberItem, hown, ← hinfo]
    exact .table hdoubled (notMem_renumber f hS)
  | raised hdoubled hk hA hB hX =>
    rw [renumber_concat, renumberItem, ← hinfo, renumber_split, renumberItem,
      renumber_of_kind f (by simp), renumber_append]
    refine .raised hdoubled hk (notMem_renumber f hA) (notMem_renumber f hB) ?_
    rw [Plot.renumber, addLeaves?_renumber, hX]
    rfl
  | array hdoubled hS =>
    rw [renumber_concat, renumberItem, renumberElements, renumberElements, hown, ← hinfo]
    exact .array hdoubled (notMem_renumber f hS)
  | element hdoubled hk hA hB =>
    rw [renumber_split, renumber_split, renumberItem, renumberItem, renumberElements_concat, hown,
      ← hinfo]
    exact .element hdoubled hk (notMem_renumber f hA) (notMem_renumber f hB)
  | above hS _ ih =>
    rw [renumber_concat, renumberItem, renumber_of_kind f (by simp)]
    exact .above (notMem_renumber f hS) ih
  | within hk hA hB _ ih =>
    rw [renumber_split, renumber_split, renumberItem, renumberItem]
    exact .within hk (notMem_renumber f hA) (notMem_renumber f hB) ih
  | last hk hA hB _ ih =>
    rw [renumber_split, renumber_split, renumberItem, renumberItem, renumberElements_concat,
      renumberElements_concat]
    exact .last hk (notMem_renumber f hA) (notMem_renumber f hB) ih

/-- **Headers with other numbers make the tree with other numbers.** -/
theorem placePlots?_renumber {ps : List Plot} (hS : Grove S) (hps : ∀ p ∈ ps, p.Sound)
    (h : placePlots? ps S = some T) :
    placePlots? (ps.map (Plot.renumber f)) (renumber f S) = some (renumber f T) := by
  induction ps generalizing S with
  | nil =>
    cases h
    rfl
  | cons p rest ih =>
    obtain ⟨S₁, hS₁, hrest⟩ := Option.bind_eq_some_iff.1 h
    have hp := hps p List.mem_cons_self
    have hplaced := (hS.place?_eq_some_iff hp.own).1 hS₁
    have hplace : (p.renumber f).place? (renumber f S) = some (renumber f S₁) :=
      (hplaced.renumber f hp.own).placeTable? hp.own
    rw [List.map_cons, placePlots?, hplace]
    exact ih (hplaced.grove hS hp hp.path) (fun q hq => hps q (List.mem_cons_of_mem _ hq)) hrest

/-! ## What does not depend on the numbers -/

mutual

/-- What a tree says does not depend on the numbers. -/
theorem entriesMeaning_renumber :
    ∀ E : List (Key × Item), entriesMeaning (renumber f E) = entriesMeaning E
  | [] => rfl
  | (key, item) :: rest => by
    rw [renumber, entriesMeaning, entriesMeaning, meaning_renumberItem item,
      entriesMeaning_renumber rest]

/-- What an item says does not depend on the numbers. -/
theorem meaning_renumberItem : ∀ item : Item, (renumberItem f item).meaning = item.meaning
  | .value _ _ => rfl
  | .table _ entries => by
    rw [renumberItem, Item.meaning, Item.meaning, entriesMeaning_renumber entries]
  | .tables elements => by
    rw [renumberItem, Item.meaning, Item.meaning, elementsMeaning_renumber elements]

/-- What the tables of an array say does not depend on the numbers. -/
theorem elementsMeaning_renumber : ∀ ts : List (TableInfo × List (Key × Item)),
    elementsMeaning (renumberElements f ts) = elementsMeaning ts
  | [] => rfl
  | (_, entries) :: rest => by
    rw [renumberElements, elementsMeaning, elementsMeaning, entriesMeaning_renumber entries,
      elementsMeaning_renumber rest]

end

/-- The sheet with another number. -/
def Sheet.renumber (s : Sheet) : Sheet := { s with position := f s.position }

mutual

/-- The trunk has no numbers. -/
theorem trunk_renumber : ∀ E : List (Key × Item), trunk (renumber f E) = trunk E
  | [] => rfl
  | (key, item) :: rest => by
    rw [renumber, trunk, trunk, itemTrunk_renumber key item, trunk_renumber rest]

/-- The trunk of an item has no numbers. -/
theorem itemTrunk_renumber (key : Key) :
    ∀ item : Item, itemTrunk key (renumberItem f item) = itemTrunk key item
  | .value _ _ => rfl
  | .table info entries => by
    rw [renumberItem, itemTrunk, itemTrunk, kind_renumber, trunk_renumber entries]
    by_cases hkind : info.kind = .dotted
    · rw [renumber_of_kind f (by simp [hkind])]
    · rw [if_neg hkind, if_neg hkind]
  | .tables _ => rfl

end

/-- The lines have no numbers. -/
theorem lines_renumber (E : Entries) : lines (renumber f E) = lines E :=
  lines_of_trunk_eq (trunk_renumber f E)

/-- The headers of a table are numbered anew if those of each entry are. -/
theorem entrySheets_renumber_of_each (path : List Key) (h : ∀ e ∈ E,
    itemSheets path e.1 (renumberItem f e.2) = (itemSheets path e.1 e.2).map (Sheet.renumber f)) :
    entrySheets path (renumber f E) = (entrySheets path E).map (Sheet.renumber f) := by
  induction E with
  | nil => rfl
  | cons e rest ih =>
    rw [renumber, entrySheets, entrySheets, List.map_append, h e List.mem_cons_self,
      ih fun e he => h e (List.mem_cons_of_mem _ he)]

/-- The headers of an array are numbered anew if those of each table in it are. -/
theorem elementSheets_renumber_of_each (path : List Key) (key : Key)
    {ts : List (TableInfo × List (Key × Item))} (hkind : ∀ t ∈ ts, t.1.kind = .header)
    (h : ∀ t ∈ ts, ∀ e ∈ t.2, ∀ path, itemSheets path e.1 (renumberItem f e.2) =
      (itemSheets path e.1 e.2).map (Sheet.renumber f)) :
    elementSheets path key (renumberElements f ts) =
      (elementSheets path key ts).map (Sheet.renumber f) := by
  induction ts with
  | nil => rfl
  | cons t rest ih =>
    obtain ⟨info, inner⟩ := t
    have hfirst := entrySheets_renumber_of_each f (path ++ [key.asInner])
      fun e he => h (info, inner) List.mem_cons_self e he _
    rw [renumberElements, elementSheets, elementSheets, hfirst,
      ih (fun t ht => hkind t (List.mem_cons_of_mem _ ht))
        (fun t ht => h t (List.mem_cons_of_mem _ ht)),
      lines_renumber, renumber_header f (hkind (info, inner) List.mem_cons_self),
      List.map_cons, List.map_append]
    rfl

/-- The headers of one entry are numbered anew, by induction over what has grown. -/
theorem Growth.itemSheets_renumber {k : Key} {item : Item} (h : Growth k item) :
    ∀ path, itemSheets path k (renumberItem f item) =
      (itemSheets path k item).map (Sheet.renumber f) := by
  have hunnamed (kind : TableKind) (hkind : kind ≠ .header) (k : Key) (inner : Entries)
      (ih : ∀ e ∈ inner, ∀ path, itemSheets path e.1 (renumberItem f e.2) =
        (itemSheets path e.1 e.2).map (Sheet.renumber f)) (path : List Key) :
      itemSheets path k (renumberItem f (.table (.unnamed kind) inner)) =
        (itemSheets path k (.table (.unnamed kind) inner)).map (Sheet.renumber f) := by
    rw [renumberItem, renumber_of_kind f hkind, itemSheets_of_kind hkind, itemSheets_of_kind hkind]
    exact entrySheets_renumber_of_each f _ fun e he => ih e he _
  induction h with
  | value => exact fun _ => rfl
  | dotted _ _ _ ih => exact hunnamed .dotted (by decide) _ _ ih
  | above _ _ _ _ ih => exact hunnamed .aboveHeader (by decide) _ _ ih
  | @header k info inner _ hkind _ _ ih =>
    intro path
    rw [renumberItem, itemSheets_header hkind, itemSheets_header (by rw [kind_renumber, hkind]),
      lines_renumber, renumber_header f hkind, List.map_cons,
      entrySheets_renumber_of_each f _ fun e he => ih e he _]
    rfl
  | @tables k elements _ hkind _ _ ih =>
    intro path
    exact elementSheets_renumber_of_each f path k hkind ih

/-- The same headers are written, with other numbers. -/
theorem Grove.entrySheets_renumber (hE : Grove E) (path : List Key) :
    entrySheets path (renumber f E) = (entrySheets path E).map (Sheet.renumber f) :=
  entrySheets_renumber_of_each f path fun e he => (hE.growth e he).itemSheets_renumber f path

end SessionHost.Toml
