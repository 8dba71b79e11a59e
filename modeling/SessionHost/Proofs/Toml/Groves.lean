import SessionHost.Proofs.Toml.Plots

/-!
# Trees that headers and keys with dots make

The tree of a document holds what keys with dots have made, and the tables that headers have put
there.  The first is the trunk of the tree; the lines of a table are told by it alone.

Main definitions:

- `trunk`: what is left of a tree without the tables that headers have put there.
- `rooted`, `lines`: the trunk as the tree of a table's own lines.
- `Growth`, `Grove`: trees that headers and keys with dots make.

Main results:

- Theorem `memberLines_lines`: the lines of a table are those of its trunk.
- Theorem `Grove.change`: another item under a key of such a tree.
-/

namespace SessionHost.Toml

variable {A B E F I S T X : Entries}

/-! ## Trunks -/

mutual

/-- The tree without the tables that headers have put there. -/
def trunk : List (Key × Item) → List (Key × Item)
  | [] => []
  | (key, item) :: rest => itemTrunk key item ++ trunk rest

/-- What is left of an item under its key. -/
def itemTrunk (key : Key) : Item → List (Key × Item)
  | .value text v => [(key, .value text v)]
  | .table info entries =>
    if info.kind = .dotted then [(key, .table info (trunk entries))] else []
  | .tables _ => []

end

/-- The trunk of two halves is that of each. -/
theorem trunk_append (A B : Entries) : trunk (A ++ B) = trunk A ++ trunk B := by
  induction A with
  | nil => rfl
  | cons e rest ih => rw [List.cons_append, trunk, trunk, ih, List.append_assoc]

/-- The trunk of one entry stands between those of the others. -/
theorem trunk_split (A B : Entries) (k : Key) (item : Item) :
    trunk (A ++ (k, item) :: B) = trunk A ++ (itemTrunk k item ++ trunk B) := by
  rw [trunk_append, trunk]

/-- The trunk of a last entry comes last. -/
theorem trunk_concat (A : Entries) (k : Key) (item : Item) :
    trunk (A ++ [(k, item)]) = trunk A ++ itemTrunk k item := by
  rw [trunk_append, trunk, trunk, List.append_nil]

mutual

/-- The lines of a table are those of its trunk. -/
theorem leaves_trunk (path : List Key) :
    ∀ E : List (Key × Item), leaves path (trunk E) = leaves path E
  | [] => rfl
  | (key, item) :: rest => by
    rw [trunk, leaves_append, leaves, leaves_itemTrunk path key item, leaves_trunk path rest]

/-- The leaves of an item are those of its trunk. -/
theorem leaves_itemTrunk (path : List Key) (key : Key) :
    ∀ item : Item, leaves path (itemTrunk key item) = itemLeaves path key item
  | .value text v => rfl
  | .table info entries => by
    rw [itemTrunk, itemLeaves]
    split
    · next hkind =>
      rw [leaves, itemLeaves, if_pos hkind, leaves, List.append_nil]
      exact leaves_trunk (path ++ [key]) entries
    · rfl
  | .tables _ => rfl

end

@[simp] theorem unnamed_kind (kind : TableKind) : (TableInfo.unnamed kind).kind = kind := rfl

@[simp] theorem itemTrunk_dotted (k : Key) (E : Entries) :
    itemTrunk k (.table (.unnamed .dotted) E) = [(k, .table (.unnamed .dotted) (trunk E))] := by
  rw [itemTrunk, if_pos (unnamed_kind _)]

/-- A table that is not made by dots has no trunk. -/
theorem itemTrunk_of_kind {info : TableInfo} (h : info.kind ≠ .dotted) (k : Key) (E : Entries) :
    itemTrunk k (.table info E) = [] := if_neg h

/-- The leaves depend on the trunk only. -/
theorem leaves_of_trunk_eq (h : trunk E = trunk F) (path : List Key) :
    leaves path E = leaves path F := by
  rw [← leaves_trunk path E, h, leaves_trunk]

theorem leaves_of_trunk_eq_nil (h : trunk E = []) (path : List Key) : leaves path E = [] :=
  leaves_of_trunk_eq (F := []) h path

/-- Values of the trunk are values of the tree. -/
theorem mem_of_mem_trunk {k : Key} {text : String} {v : Value}
    (h : (k, Item.value text v) ∈ trunk E) : (k, Item.value text v) ∈ E := by
  induction E with
  | nil => exact h
  | cons e rest ih =>
    obtain ⟨k', item⟩ := e
    rw [trunk, List.mem_append] at h
    rcases h with h | h
    · cases item with
      | value text' v' =>
        rw [itemTrunk, List.mem_singleton] at h
        rw [h]
        exact List.mem_cons_self
      | table info inner =>
        rw [itemTrunk] at h
        split at h
        · simp at h
        · cases h
      | tables elements => cases h
    · exact List.mem_cons_of_mem _ (ih h)

section Forest

variable {IsInner IsLeaf : Key → Prop} {IsText : String → Value → Prop} {n : Nat}

/-- If each entry is all trunk, so is the table. -/
theorem trunk_of_each (h : ∀ e ∈ E, itemTrunk e.1 e.2 = [e]) : trunk E = E := by
  induction E with
  | nil => rfl
  | cons e rest ih =>
    rw [trunk, h e List.mem_cons_self, ih fun e he => h e (List.mem_cons_of_mem _ he)]
    rfl

/-- A tree that keys with dots have made below one key is all trunk. -/
theorem Branch.itemTrunk {k : Key} {item : Item} (h : Branch IsInner IsLeaf IsText n k item) :
    itemTrunk k item = [(k, item)] := by
  induction h with
  | leaf => rfl
  | @dotted n k inner hk hne hd hin ih =>
    rw [itemTrunk_dotted, trunk_of_each ih]

/-- A tree that keys with dots have made is all trunk. -/
theorem Forest.trunk (hE : Forest IsInner IsLeaf IsText n E) : trunk E = E :=
  trunk_of_each fun e he => (hE.branches e he).itemTrunk

end Forest

/-- The trunk has some of the names, in their order. -/
theorem names_trunk_sublist (E : Entries) : (names (trunk E)).Sublist (names E) := by
  induction E with
  | nil => exact List.nil_sublist _
  | cons e rest ih =>
    obtain ⟨k, item⟩ := e
    have hitem : (names (itemTrunk k item)).Sublist [k.name] := by
      cases item with
      | value text v => exact List.Sublist.refl _
      | table info inner =>
        rw [itemTrunk]
        split
        · exact List.Sublist.refl _
        · exact List.nil_sublist _
      | tables elements => exact List.nil_sublist _
    rw [trunk, names_append]
    exact hitem.append ih

/-! ## The lines of a table -/

/-- A key as it is read where no dot stands before it. -/
def Key.rooted (k : Key) : Key := { k with behindDot := "" }

/-- A tree as keys with dots make it in a table of its own. -/
def rooted (entries : Entries) : Entries := entries.map fun e => (e.1.rooted, e.2)

/-- The lines of a table, as a tree that its own keys make. -/
def lines (entries : Entries) : Entries := rooted (trunk entries)

/-- The lines depend on the trunk only. -/
theorem lines_of_trunk_eq (h : trunk E = trunk F) : lines E = lines F := congrArg rooted h

@[simp] theorem names_rooted (E : Entries) : names (rooted E) = names E := by
  rw [names, names, rooted, List.map_map]
  rfl

/-- No dot stands before the keys of a rooted tree. -/
theorem rootKeys_rooted (E : Entries) : RootKeys (rooted E) := by
  intro e he
  obtain ⟨e', -, rfl⟩ := List.mem_map.1 he
  rfl

/-- A tree without dots before its keys is rooted already. -/
theorem rooted_of_rootKeys (h : RootKeys E) : rooted E = E := by
  refine (List.map_congr_left fun e he => ?_).trans (List.map_id' E)
  have hdot := h e he
  obtain ⟨⟨name, raw, around, beforeDot, behindDot⟩, item⟩ := e
  cases hdot
  rfl

/-- A tree that keys with dots have made in a table is all lines. -/
theorem LineForest.lines (hE : LineForest E) : lines E = E := by
  rw [Toml.lines, hE.forest.trunk, rooted_of_rootKeys hE.root]

/-- Where a path begins, nothing is written between a dot and its key. -/
theorem pathText_rooted (k : Key) (path : List Key) (default : String × String) :
    pathText (k.rooted :: path) default = pathText (k :: path) default := by
  cases path <;> rfl

/-- The members that an item gives are written alike below its rooted key. -/
theorem memberText_rooted (k : Key) (item : Item) :
    (itemLeaves [] k.rooted item).map (memberText ∘ Leaf.member) =
      (itemLeaves [] k item).map (memberText ∘ Leaf.member) := by
  cases item with
  | value text v => rfl
  | table info inner =>
    by_cases hkind : info.kind = .dotted
    · rw [itemLeaves_of_dotted hkind, itemLeaves_of_dotted hkind, List.map_map, List.map_map]
      refine List.map_congr_left fun l _ => ?_
      exact congrArg (· ++ "=" ++ l.text) (pathText_rooted k (l.path ++ [l.key]) ("", " "))
    · rw [itemLeaves, itemLeaves, if_neg hkind, if_neg hkind]
  | tables elements => rfl

/-- Lines are the members with a line end behind each. -/
theorem memberLines_eq (ls : List Leaf) : memberLines (ls.map Leaf.member) =
    String.join ((ls.map (memberText ∘ Leaf.member)).map (· ++ "\n")) := by
  rw [memberLines, List.map_map, List.map_map]
  rfl

/-- The lines of a table are written as those of its trunk. -/
theorem memberLines_lines (E : Entries) :
    memberLines ((leaves [] (Toml.lines E)).map Leaf.member) = memberLines (ownMembers [] E) := by
  have hrooted (T : Entries) : (leaves [] (rooted T)).map (memberText ∘ Leaf.member) =
      (leaves [] T).map (memberText ∘ Leaf.member) := by
    induction T with
    | nil => rfl
    | cons e rest ih =>
      rw [rooted, List.map_cons, leaves, leaves, List.map_append, List.map_append,
        memberText_rooted]
      exact congrArg _ ih
  rw [ownMembers_eq, memberLines_eq, memberLines_eq, Toml.lines, hrooted, leaves_trunk]

/-! ## Groves -/

/-- What may stand under a key in the tree of a document.  Keys of tables that no header names are
those that stand before others. -/
inductive Growth : Key → Item → Prop where
  | value {k : Key} {text : String} {v : Value} (hk : IsLeafKey IsLead IsBlank k) :
      Growth k (.value text v)
  | dotted {k : Key} {inner : List (Key × Item)} (hk : IsInnerKey k) (hd : Distinct inner)
      (h : ∀ e ∈ inner, Growth e.1 e.2) : Growth k (.table (.unnamed .dotted) inner)
  | above {k : Key} {inner : List (Key × Item)} (hk : IsInnerKey k) (htrunk : trunk inner = [])
      (hd : Distinct inner) (h : ∀ e ∈ inner, Growth e.1 e.2) :
      Growth k (.table (.unnamed .aboveHeader) inner)
  | header {k : Key} {info : TableInfo} {inner : List (Key × Item)}
      (hk : IsLeafKey IsBlank IsBlank k) (hkind : info.kind = .header) (hd : Distinct inner)
      (h : ∀ e ∈ inner, Growth e.1 e.2) : Growth k (.table info inner)
  | tables {k : Key} {elements : List (TableInfo × List (Key × Item))}
      (hk : IsLeafKey IsBlank IsBlank k) (hkind : ∀ t ∈ elements, t.1.kind = .header)
      (hd : ∀ t ∈ elements, Distinct t.2) (h : ∀ t ∈ elements, ∀ e ∈ t.2, Growth e.1 e.2) :
      Growth k (.tables elements)

/-- A tree that headers and keys with dots make. -/
structure Grove (entries : Entries) : Prop where
  distinct : Distinct entries
  growth : ∀ e ∈ entries, Growth e.1 e.2

theorem grove_nil : Grove [] := ⟨distinct_nil, by simp⟩

/-- A tree that keys with dots have made could stand in a document. -/
theorem Branch.growth {n : Nat} {k : Key} {item : Item}
    (h : Branch IsInnerKey (IsLeafKey IsLead IsBlank) IsLineText n k item) : Growth k item := by
  induction h with
  | leaf hk _ => exact .value hk
  | dotted hk _ hd _ ih => exact .dotted hk hd ih

/-- A table of trees that keys with dots have made could stand in a document. -/
theorem LineForest.grove (hE : LineForest E) : Grove E :=
  ⟨hE.forest.distinct, fun e he => (hE.forest.branches e he).growth⟩

/-- What has grown under a new name can be added to a tree. -/
theorem Grove.concat {k : Key} {item : Item} (hE : Grove E) (hk : k.name ∉ names E)
    (h : Growth k item) : Grove (E ++ [(k, item)]) := by
  refine ⟨distinct_concat hE.distinct hk, fun e he => ?_⟩
  rcases List.mem_append.1 he with hold | hnew
  · exact hE.growth e hold
  · obtain rfl := List.mem_singleton.1 hnew
    exact h

/-- The parts of a tree beside one key. -/
theorem Grove.split {k : Key} {item : Item} (h : Grove (A ++ (k, item) :: B)) :
    Grove (A ++ B) ∧ Growth k item := by
  obtain ⟨hd, hgrowth⟩ := h
  refine ⟨⟨?_, fun e he => hgrowth e ?_⟩, hgrowth (k, item) (by simp)⟩
  · rw [Distinct, names_append, names_cons, List.perm_middle.nodup_iff] at hd
    rw [Distinct, names_append]
    exact (List.nodup_cons.1 hd).2
  · rcases List.mem_append.1 he with he | he
    · exact List.mem_append_left _ he
    · exact List.mem_append_right _ (List.mem_cons_of_mem _ he)

/-- Another item under a key. -/
theorem Grove.change {k : Key} {item other : Item} (h : Grove (A ++ (k, item) :: B))
    (hother : Growth k other) : Grove (A ++ (k, other) :: B) := by
  obtain ⟨hd, hgrowth⟩ := h
  refine ⟨?_, fun e he => ?_⟩
  · rw [Distinct, names_append, names_cons] at hd ⊢
    exact hd
  · rcases List.mem_append.1 he with he | he
    · exact hgrowth e (List.mem_append_left _ he)
    · rcases List.mem_cons.1 he with rfl | he
      · exact hother
      · exact hgrowth e (List.mem_append_right _ (List.mem_cons_of_mem _ he))

/-- The entries of a table under a key. -/
theorem Growth.table {k : Key} {info : TableInfo} {inner : Entries}
    (h : Growth k (.table info inner)) : Grove inner := by
  cases h with
  | dotted _ hd h => exact ⟨hd, h⟩
  | above _ _ hd h => exact ⟨hd, h⟩
  | header _ _ hd h => exact ⟨hd, h⟩

/-- Other entries with the same trunk in a table under a key. -/
theorem Growth.change {k : Key} {info : TableInfo} {inner other : Entries}
    (h : Growth k (.table info inner)) (hother : Grove other) (htrunk : trunk other = trunk inner) :
    Growth k (.table info other) := by
  cases h with
  | dotted hk _ _ => exact .dotted hk hother.distinct hother.growth
  | above hk hnil _ _ => exact .above hk (htrunk.trans hnil) hother.distinct hother.growth
  | header hk hkind _ _ => exact .header hk hkind hother.distinct hother.growth

/-- An array of tables holds tables of headers. -/
theorem Growth.tables_iff {k : Key} {elements : List (TableInfo × Entries)} :
    Growth k (.tables elements) ↔ IsLeafKey IsBlank IsBlank k ∧
      ∀ t ∈ elements, t.1.kind = .header ∧ Grove t.2 := by
  constructor
  · rintro (_ | _ | _ | _ | ⟨hk, hkind, hd, h⟩)
    exact ⟨hk, fun t ht => ⟨hkind t ht, hd t ht, h t ht⟩⟩
  · rintro ⟨hk, h⟩
    exact .tables hk (fun t ht => (h t ht).1) (fun t ht => (h t ht).2.distinct)
      fun t ht => (h t ht).2.growth

/-- Each table of an array has a header and could stand in a document. -/
theorem Growth.element {k : Key} {elements : List (TableInfo × Entries)} {t : TableInfo × Entries}
    (h : Growth k (.tables elements)) (ht : t ∈ elements) : t.1.kind = .header ∧ Grove t.2 :=
  (tables_iff.1 h).2 t ht

end SessionHost.Toml
