import Mathlib.Data.List.Basic
import SessionHost.Toml.Tree

/-!
# Trees that keys with dots make

A table holds values, and tables that keys with dots have made.  Such a tree is told completely by
its leaves in their order: adding them one by one to an empty table, or to one that holds other
names, makes the same tree again.

Main definitions:

- `names`, `Distinct`: the names in a table, each of which stands there once.
- `leaves`, `addLeaf?`: the values of a tree with the keys that lead to them.
- `Branch`, `Forest`: a tree that keys with dots have made.

Main results:

- Theorem `Forest.addMember?`: a key with dots keeps such a tree one.
- Theorem `Forest.addLeaves?`: the leaves make the tree again.
-/

namespace SessionHost.Toml

variable {name : String} {item : Item} {A B E X : Entries}

/-! ## Names -/

/-- The names in a table. -/
def names (entries : Entries) : List String := entries.map fun e => e.1.name

/-- Each name stands in a table once. -/
def Distinct (entries : Entries) : Prop := (names entries).Nodup

@[simp] theorem names_nil : names [] = [] := rfl

@[simp] theorem names_cons (e : Key × Item) (E : Entries) :
    names (e :: E) = e.1.name :: names E := rfl

@[simp] theorem names_append (A B : Entries) : names (A ++ B) = names A ++ names B :=
  List.map_append

theorem distinct_nil : Distinct [] := List.nodup_nil

/-- Nothing is found under a name exactly where the name is not there. -/
theorem find?_eq_none_iff : find? name E = none ↔ name ∉ names E := by
  simp [find?, names]

@[simp] theorem find?_nil : find? name [] = none := rfl

/-- A search goes on behind entries that do not have the name. -/
theorem find?_append_of_notMem (h : name ∉ names A) : find? name (A ++ B) = find? name B := by
  have hnone : A.find? (fun e => e.1.name == name) = none := by
    simpa [names] using h
  rw [find?, List.find?_append, hnone]
  rfl

theorem find?_cons_self (k : Key) (item : Item) (E : Entries) :
    find? k.name ((k, item) :: E) = some item := by
  simp [find?]

theorem find?_cons_of_ne {k : Key} (h : k.name ≠ name) (other : Item) (E : Entries) :
    find? name ((k, other) :: E) = find? name E := by
  simp [find?, h]

/-- A name in a table stands between others. -/
theorem exists_split (h : find? name E = some item) (hE : Distinct E) :
    ∃ A k B, E = A ++ (k, item) :: B ∧ k.name = name ∧ name ∉ names A ∧ name ∉ names B := by
  induction E with
  | nil => cases h
  | cons e rest ih =>
    obtain ⟨k, other⟩ := e
    have hnodup := List.nodup_cons.1 (show (k.name :: names rest).Nodup from hE)
    by_cases hk : k.name = name
    · subst hk
      rw [find?_cons_self] at h
      cases h
      exact ⟨[], k, rest, rfl, rfl, by simp, hnodup.1⟩
    · have hrest : find? name rest = some item := by
        simpa [find?, hk] using h
      obtain ⟨A, k', B, rfl, hname, hA, hB⟩ := ih hrest hnodup.2
      exact ⟨(k, other) :: A, k', B, rfl, hname, by simp [hA, Ne.symm hk], hB⟩

/-- An entry is found by its name if no entry before it has that name. -/
theorem find?_split (k : Key) (hA : k.name ∉ names A) :
    find? k.name (A ++ (k, item) :: B) = some item := by
  rw [find?_append_of_notMem hA, find?_cons_self]

/-- Replacing under a name that is not there changes nothing. -/
theorem replace_of_notMem (h : name ∉ names E) : replace name item E = E := by
  refine (List.map_congr_left fun e he => if_neg ?_).trans (List.map_id' E)
  have : e.1.name ≠ name := fun heq => h (heq ▸ List.mem_map_of_mem he)
  simpa using this

theorem replace_cons_self (k : Key) (other : Item) (E : Entries) :
    replace k.name item ((k, other) :: E) = (k, item) :: replace k.name item E := by
  simp [replace]

theorem replace_cons_of_ne {k : Key} (h : k.name ≠ name) (other : Item) (E : Entries) :
    replace name item ((k, other) :: E) = (k, other) :: replace name item E := by
  simp [replace, h]

theorem remove_cons_self (k : Key) (E : Entries) :
    remove k.name ((k, item) :: E) = remove k.name E := by
  simp [remove]

/-- Two halves of a table are replaced in one by one. -/
theorem replace_append (A B : Entries) :
    replace name item (A ++ B) = replace name item A ++ replace name item B :=
  List.map_append

/-- Another item takes the place of the one under a name. -/
theorem replace_split (k : Key) (other : Item) (hA : k.name ∉ names A) (hB : k.name ∉ names B) :
    replace k.name item (A ++ (k, other) :: B) = A ++ (k, item) :: B := by
  rw [replace_append, replace_of_notMem hA, replace_cons_self, replace_of_notMem hB]

/-- Removing a name that is not there changes nothing. -/
theorem remove_of_notMem (h : name ∉ names E) : remove name E = E := by
  rw [remove, List.filter_eq_self]
  intro e he
  have : e.1.name ≠ name := fun heq => h (heq ▸ List.mem_map_of_mem he)
  simpa using this

theorem remove_append (A B : Entries) : remove name (A ++ B) = remove name A ++ remove name B := by
  rw [remove, remove, remove, List.filter_append]

/-- The one entry of a name goes, all others stay where they are. -/
theorem remove_split (k : Key) (hA : k.name ∉ names A) (hB : k.name ∉ names B) :
    remove k.name (A ++ (k, item) :: B) = A ++ B := by
  rw [remove_append, remove_of_notMem hA, remove_cons_self, remove_of_notMem hB]

/-- Names depend on the keys only. -/
theorem names_eq_keys (E : Entries) : names E = (E.map (·.1)).map Key.name := by
  rw [names, List.map_map]
  rfl

/-- Replacing an item keeps every key as it is written. -/
theorem keys_replace (name : String) (item : Item) (E : Entries) :
    (replace name item E).map (·.1) = E.map (·.1) := by
  rw [replace, List.map_map]
  refine List.map_congr_left fun e _ => ?_
  simp only [Function.comp]
  split <;> rfl

/-- Replacing an item keeps the names in their order. -/
@[simp] theorem names_replace (name : String) (item : Item) (E : Entries) :
    names (replace name item E) = names E := by
  rw [names_eq_keys, names_eq_keys, keys_replace]

/-- An item that takes the place of another one is among the entries. -/
theorem exists_mem_replace {found : Item} (h : find? name E = some found) (item : Item) :
    ∃ k, (k, item) ∈ replace name item E := by
  obtain ⟨e, he, -⟩ := Option.map_eq_some_iff.1 h
  have hname := List.find?_some he
  exact ⟨e.1, List.mem_map.2 ⟨e, List.mem_of_find?_eq_some he, if_pos hname⟩⟩

/-! ## Leaves -/

/-- A value with the keys that lead to it, and its text. -/
structure Leaf where
  path : List Key
  key : Key
  text : String
  value : Value

mutual

/-- The values of a table's own lines, with the keys that lead to them. -/
def leaves (path : List Key) : List (Key × Item) → List Leaf
  | [] => []
  | (key, item) :: rest => itemLeaves path key item ++ leaves path rest

/-- The values that an item adds to the lines of the table above it. -/
def itemLeaves (path : List Key) (key : Key) : Item → List Leaf
  | .value text v => [⟨path, key, text, v⟩]
  | .table info entries => if info.kind = .dotted then leaves (path ++ [key]) entries else []
  | .tables _ => []

end

/-- What is written for a leaf. -/
def Leaf.member (l : Leaf) : List Key × String := (l.path ++ [l.key], l.text)

mutual

/-- What a table writes as its own lines is what its leaves say. -/
theorem ownMembers_eq (path : List Key) :
    ∀ E : List (Key × Item), ownMembers path E = (leaves path E).map Leaf.member
  | [] => rfl
  | (key, item) :: rest => by
    rw [ownMembers, leaves, List.map_append, ownMembers_eq path rest, itemMembers_eq path key item]

/-- What an item adds to these lines is what its own leaves say. -/
theorem itemMembers_eq (path : List Key) (key : Key) :
    ∀ item : Item, itemMembers (path ++ [key]) item = (itemLeaves path key item).map Leaf.member
  | .value text v => rfl
  | .table info entries => by
    rw [itemMembers, itemLeaves]
    split
    · exact ownMembers_eq (path ++ [key]) entries
    · rfl
  | .tables _ => rfl

end

/-- The leaves of two halves stand one behind the other. -/
theorem leaves_append (path : List Key) (A B : Entries) :
    leaves path (A ++ B) = leaves path A ++ leaves path B := by
  induction A with
  | nil => rfl
  | cons e rest ih => rw [List.cons_append, leaves, leaves, ih, List.append_assoc]

/-- A leaf below further keys. -/
def Leaf.below (path : List Key) (l : Leaf) : Leaf := { l with path := path ++ l.path }

mutual

/-- A longer path to a table is a longer path to each of its leaves. -/
theorem leaves_below (path more : List Key) :
    ∀ E : List (Key × Item), leaves (path ++ more) E = (leaves more E).map (Leaf.below path)
  | [] => rfl
  | (key, item) :: rest => by
    rw [leaves, leaves, List.map_append, leaves_below path more rest,
      itemLeaves_below path more key item]

/-- A longer path to an item is a longer path to each of its leaves. -/
theorem itemLeaves_below (path more : List Key) (key : Key) :
    ∀ item : Item, itemLeaves (path ++ more) key item =
      (itemLeaves more key item).map (Leaf.below path)
  | .value text v => rfl
  | .table info entries => by
    rw [itemLeaves, itemLeaves]
    split
    · rw [List.append_assoc]
      exact leaves_below path (more ++ [key]) entries
    · rfl
  | .tables _ => rfl

end

/-- The leaves of a table with dots, below its key. -/
theorem itemLeaves_of_dotted {info : TableInfo} (h : info.kind = .dotted) (key : Key)
    (entries : Entries) :
    itemLeaves [] key (.table info entries) = (leaves [] entries).map (Leaf.below [key]) := by
  rw [itemLeaves, if_pos h]
  exact leaves_below [key] [] entries

theorem itemLeaves_dotted (key : Key) (entries : Entries) :
    itemLeaves [] key (.table (.unnamed .dotted) entries) =
      (leaves [] entries).map (Leaf.below [key]) :=
  itemLeaves_of_dotted rfl key entries

/-- A table with leaves has entries. -/
theorem ne_nil_of_leaves (h : leaves [] E ≠ []) : E ≠ [] := by
  rintro rfl
  exact h rfl

/-- One entry with leaves is enough for a table to have some. -/
theorem leaves_ne_nil_of_mem {e : Key × Item} (he : e ∈ E) (h : itemLeaves [] e.1 e.2 ≠ []) :
    leaves [] E ≠ [] := by
  obtain ⟨A, B, rfl⟩ := List.append_of_mem he
  rw [leaves_append, leaves]
  simp [h]

/-- Adds a leaf to a table. -/
def addLeaf? (l : Leaf) (entries : Entries) : Option Entries :=
  addMember? l.path l.key (.value l.text l.value) entries

/-- Adds leaves to a table, one by one. -/
def addLeaves? : List Leaf → Entries → Option Entries
  | [], entries => some entries
  | l :: rest, entries => (addLeaf? l entries).bind (addLeaves? rest)

/-- Adding leaves goes on where it has stopped. -/
theorem addLeaves?_append (ls ms : List Leaf) (E : Entries) :
    addLeaves? (ls ++ ms) E = (addLeaves? ls E).bind (addLeaves? ms) := by
  induction ls generalizing E with
  | nil => rfl
  | cons l rest ih =>
    rw [List.cons_append, addLeaves?, addLeaves?, Option.bind_assoc]
    exact congrArg _ (funext fun _ => ih _)

/-! ## Trees -/

/-- A tree of some height that keys with dots have made; `IsInner` and `IsLeaf` say which keys
stand in it, and `IsText` which values. -/
inductive Branch (IsInner IsLeaf : Key → Prop) (IsText : String → Value → Prop) :
    Nat → Key → Item → Prop where
  | leaf {n : Nat} {k : Key} {text : String} {v : Value} (hk : IsLeaf k) (hv : IsText text v) :
      Branch IsInner IsLeaf IsText (n + 1) k (.value text v)
  | dotted {n : Nat} {k : Key} {inner : List (Key × Item)} (hk : IsInner k) (hne : inner ≠ [])
      (hd : Distinct inner) (h : ∀ e ∈ inner, Branch IsInner IsLeaf IsText n e.1 e.2) :
      Branch IsInner IsLeaf IsText (n + 1) k (.table (.unnamed .dotted) inner)

/-- A table of such trees. -/
structure Forest (IsInner IsLeaf : Key → Prop) (IsText : String → Value → Prop) (n : Nat)
    (entries : Entries) : Prop where
  distinct : Distinct entries
  branches : ∀ e ∈ entries, Branch IsInner IsLeaf IsText n e.1 e.2

section Forest

variable {IsInner IsLeaf : Key → Prop} {IsText : String → Value → Prop} {n : Nat}

theorem forest_nil : Forest IsInner IsLeaf IsText n [] := ⟨distinct_nil, by simp⟩

/-- Names stay different if a new one comes behind them. -/
theorem distinct_concat {k : Key} (hE : Distinct E) (h : k.name ∉ names E) :
    Distinct (E ++ [(k, item)]) := by
  rw [Distinct, names_append, List.nodup_append]
  refine ⟨hE, by simp, fun a ha b hb heq => h ?_⟩
  simp only [names_cons, names_nil, List.mem_singleton] at hb
  rw [← hb, ← heq]
  exact ha

/-- A tree under a new name behind the others is one tree more. -/
theorem Forest.concat {k : Key} (hE : Forest IsInner IsLeaf IsText n E) (h : k.name ∉ names E)
    (hk : Branch IsInner IsLeaf IsText n k item) :
    Forest IsInner IsLeaf IsText n (E ++ [(k, item)]) := by
  refine ⟨distinct_concat hE.distinct h, fun e he => ?_⟩
  rcases List.mem_append.1 he with hold | hnew
  · exact hE.branches e hold
  · obtain rfl := List.mem_singleton.1 hnew
    exact hk

/-- A table with a new value has a line for it. -/
theorem leaves_addMember?_ne_nil {path : List Key} {key : Key} {text : String} {v : Value}
    {E' : Entries} (h : addMember? path key (.value text v) E = some E') : leaves [] E' ≠ [] := by
  induction path generalizing E E' with
  | nil =>
    rw [addMember?] at h
    split at h
    · cases h
    · cases h
      exact leaves_ne_nil_of_mem (List.mem_append_right _ List.mem_cons_self) (by simp [itemLeaves])
  | cons k rest ih =>
    have hdotted {k : Key} {info : TableInfo} {X inner : Entries} (hkind : info.kind = .dotted)
        (hinner : addMember? rest key (.value text v) X = some inner) :
        itemLeaves [] k (.table info inner) ≠ [] := by
      rw [itemLeaves_of_dotted hkind]
      exact fun hnil => ih hinner (List.map_eq_nil_iff.1 hnil)
    rw [addMember?] at h
    split at h
    · obtain ⟨inner, hinner, rfl⟩ := Option.map_eq_some_iff.1 h
      exact leaves_ne_nil_of_mem (List.mem_append_right _ List.mem_cons_self) (hdotted rfl hinner)
    · next hfind =>
      split at h
      · cases h
      · obtain ⟨inner, hinner, rfl⟩ := Option.map_eq_some_iff.1 h
        obtain ⟨k', hmem⟩ := exists_mem_replace hfind _
        exact leaves_ne_nil_of_mem hmem (hdotted rfl hinner)
    · cases h

/-- A table that a leaf was added to is not empty. -/
theorem addLeaf?_ne_nil {l : Leaf} {E' : Entries} (h : addLeaf? l E = some E') : E' ≠ [] :=
  ne_nil_of_leaves (leaves_addMember?_ne_nil h)

/-- A key with dots keeps a tree that such keys have made one. -/
theorem Forest.addMember? {path : List Key} {key : Key} {text : String} {v : Value}
    {E' : Entries} (hE : Forest IsInner IsLeaf IsText n E) (hpath : ∀ k ∈ path, IsInner k)
    (hkey : IsLeaf key) (hv : IsText text v) (hn : path.length < n)
    (h : Toml.addMember? path key (.value text v) E = some E') :
    Forest IsInner IsLeaf IsText n E' := by
  induction path generalizing E E' n with
  | nil =>
    obtain ⟨m, rfl⟩ : ∃ m, n = m + 1 := ⟨n - 1, by simp at hn; omega⟩
    rw [Toml.addMember?] at h
    split at h
    · cases h
    · next hnone =>
      cases h
      have hnew : find? key.name E = none := by simpa using hnone
      exact hE.concat (find?_eq_none_iff.1 hnew) (.leaf hkey hv)
  | cons k rest ih =>
    obtain ⟨m, rfl⟩ : ∃ m, n = m + 1 := ⟨n - 1, by simp at hn; omega⟩
    have hm : rest.length < m := by simpa using hn
    have hk := hpath k List.mem_cons_self
    have hrest : ∀ k ∈ rest, IsInner k := fun k' hk' => hpath k' (List.mem_cons_of_mem _ hk')
    rw [Toml.addMember?] at h
    split at h
    · next hnone =>
      obtain ⟨inner, hinner, rfl⟩ := Option.map_eq_some_iff.1 h
      have hforest := ih forest_nil hrest hm hinner
      exact hE.concat (find?_eq_none_iff.1 hnone)
        (.dotted hk (ne_nil_of_leaves (leaves_addMember?_ne_nil hinner)) hforest.distinct
          hforest.branches)
    · next info inner hfind =>
      obtain ⟨A, k', B, rfl, hname, hA, hB⟩ := exists_split hfind hE.distinct
      have hbranch : Branch IsInner IsLeaf IsText (m + 1) k' (.table info inner) :=
        hE.branches (k', _) (by simp)
      cases hbranch with
      | dotted hk' hne hd hin =>
        rw [if_neg (by simp [TableInfo.unnamed])] at h
        obtain ⟨changed, hchanged, rfl⟩ := Option.map_eq_some_iff.1 h
        have hforest := ih ⟨hd, hin⟩ hrest hm hchanged
        rw [← hname] at hA hB ⊢
        refine ⟨?_, fun e he => ?_⟩
        · have := hE.distinct
          rw [Distinct] at this ⊢
          rwa [names_replace]
        · rw [replace_split k' _ hA hB] at he
          rcases List.mem_append.1 he with hleft | hright
          · exact hE.branches e (List.mem_append_left _ hleft)
          · rcases List.mem_cons.1 hright with rfl | hright
            · exact .dotted hk' (ne_nil_of_leaves (leaves_addMember?_ne_nil hchanged))
                hforest.distinct hforest.branches
            · exact hE.branches e (List.mem_append_right _ (List.mem_cons_of_mem _ hright))
    · cases h

/-- A table gets the first key of a new value, if it has no key of that name. -/
theorem keys_addMember? {path : List Key} {key : Key} {E' : Entries}
    (h : Toml.addMember? path key item E = some E') :
    E'.map (·.1) = E.map (·.1) ∨
      ∃ k, (path ++ [key]).head? = some k ∧ k.name ∉ names E ∧
        E'.map (·.1) = E.map (·.1) ++ [k] := by
  unfold Toml.addMember? at h
  split at h
  · split at h
    · cases h
    · next hnone =>
      cases h
      exact .inr ⟨key, rfl, find?_eq_none_iff.1 (by simpa using hnone), by simp⟩
  · next k rest =>
    split at h
    · next hnone =>
      obtain ⟨inner, -, rfl⟩ := Option.map_eq_some_iff.1 h
      exact .inr ⟨k, rfl, find?_eq_none_iff.1 hnone, by simp⟩
    · split at h
      · cases h
      · obtain ⟨inner, -, rfl⟩ := Option.map_eq_some_iff.1 h
        exact .inl (keys_replace _ _ _)
    · cases h

/-- Names stay different when a key with dots adds a value. -/
theorem distinct_addMember? {path : List Key} {key : Key} {E' : Entries} (hE : Distinct E)
    (h : Toml.addMember? path key item E = some E') : Distinct E' := by
  rw [Distinct, names_eq_keys] at hE ⊢
  rcases keys_addMember? h with hkeys | ⟨k, -, hnew, hkeys⟩
  · rwa [hkeys]
  · rw [hkeys, List.map_append, List.nodup_append]
    refine ⟨hE, by simp, fun a ha b hb heq => hnew ?_⟩
    obtain rfl := List.mem_singleton.1 hb
    rw [names_eq_keys, ← heq]
    exact ha

/-- No dot stands before the keys of a table. -/
def RootKeys (entries : Entries) : Prop := ∀ e ∈ entries, e.1.behindDot = ""

theorem RootKeys.concat {k : Key} (h : RootKeys E) (hk : k.behindDot = "") :
    RootKeys (E ++ [(k, item)]) := by
  intro e he
  rcases List.mem_append.1 he with hold | hnew
  · exact h e hold
  · obtain rfl := List.mem_singleton.1 hnew
    exact hk

/-- Whether dots stand before the keys of a table depends on these keys only. -/
theorem rootKeys_iff : RootKeys E ↔ ∀ k ∈ E.map (·.1), k.behindDot = "" := by
  rw [RootKeys, List.forall_mem_map]

/-- A path that begins without a dot leaves a table with no dot before its keys. -/
theorem RootKeys.addMember? {path : List Key} {key : Key} {E' : Entries}
    (hE : RootKeys E) (hpath : ∀ k ∈ (path ++ [key]).head?, k.behindDot = "")
    (h : Toml.addMember? path key item E = some E') : RootKeys E' := by
  rw [rootKeys_iff] at hE ⊢
  rcases keys_addMember? h with hkeys | ⟨k, hk, -, hkeys⟩
  · rwa [hkeys]
  · intro k' hk'
    rw [hkeys] at hk'
    rcases List.mem_append.1 hk' with hold | hnew
    · exact hE k' hold
    · obtain rfl := List.mem_singleton.1 hnew
      exact hpath k' hk

/-- What is known of a leaf of a tree: its keys, its text, and how deep it stands. -/
structure Leaf.Sound (IsInner IsLeaf : Key → Prop) (IsText : String → Value → Prop) (n : Nat)
    (l : Leaf) : Prop where
  path : ∀ k ∈ l.path, IsInner k
  key : IsLeaf l.key
  text : IsText l.text l.value
  height : l.path.length < n

/-- Each leaf of a tree is sound, and its path begins with the key of the tree. -/
theorem Branch.sound {k : Key} (h : Branch IsInner IsLeaf IsText n k item) :
    ∀ l ∈ itemLeaves [] k item,
      l.Sound IsInner IsLeaf IsText n ∧ (l.path ++ [l.key]).head? = some k := by
  induction h with
  | leaf hk hv =>
    intro l hl
    obtain rfl := List.mem_singleton.1 hl
    exact ⟨⟨by simp, hk, hv, by simp⟩, rfl⟩
  | @dotted n k inner hk hne hd hin ih =>
    intro l hl
    rw [itemLeaves_dotted] at hl
    obtain ⟨l', hl', rfl⟩ := List.mem_map.1 hl
    have hmem : ∀ J : Entries, l' ∈ leaves [] J → ∃ e ∈ J, l' ∈ itemLeaves [] e.1 e.2 := by
      intro J
      induction J with
      | nil => exact fun h => nomatch h
      | cons e rest ihrest =>
        intro h
        rw [leaves] at h
        rcases List.mem_append.1 h with hfirst | hlater
        · exact ⟨e, List.mem_cons_self, hfirst⟩
        · obtain ⟨e', he', hin'⟩ := ihrest hlater
          exact ⟨e', List.mem_cons_of_mem _ he', hin'⟩
    obtain ⟨e, he, hle⟩ := hmem inner hl'
    obtain ⟨hsound, -⟩ := ih e he l' hle
    refine ⟨⟨?_, hsound.key, hsound.text, ?_⟩, rfl⟩
    · simpa [Leaf.below] using ⟨hk, hsound.path⟩
    · simpa [Leaf.below] using hsound.height

/-- Each leaf of a table of trees is sound, and no dot stands before its path. -/
theorem Forest.sound (hE : Forest IsInner IsLeaf IsText n E) (hroot : RootKeys E) :
    ∀ l ∈ leaves [] E, l.Sound IsInner IsLeaf IsText n ∧
      ∀ k ∈ (l.path ++ [l.key]).head?, k.behindDot = "" := by
  obtain ⟨-, hbranches⟩ := hE
  induction E with
  | nil => exact fun l hl => nomatch hl
  | cons e rest ih =>
    intro l hl
    rw [leaves] at hl
    rcases List.mem_append.1 hl with hfirst | hlater
    · obtain ⟨hsound, hhead⟩ := (hbranches e List.mem_cons_self).sound l hfirst
      refine ⟨hsound, fun k hk => ?_⟩
      rw [hhead] at hk
      cases hk
      exact hroot e List.mem_cons_self
    · exact ih (fun e he => hroot e (List.mem_cons_of_mem _ he))
        (fun e he => hbranches e (List.mem_cons_of_mem _ he)) l hlater

/-! ## Adding the leaves again -/

/-- A leaf below a new name makes a table with dots behind the others. -/
theorem addLeaf?_below_new {k : Key} {l : Leaf} {inner : Entries}
    (hX : k.name ∉ names X) (h : addLeaf? l [] = some inner) :
    addLeaf? (l.below [k]) X = some (X ++ [(k, .table (.unnamed .dotted) inner)]) := by
  rw [addLeaf?, Leaf.below, List.singleton_append, Toml.addMember?, find?_eq_none_iff.2 hX]
  simp only
  rw [show Toml.addMember? l.path l.key (.value l.text l.value) [] = some inner from h]
  rfl

section Below

variable {k k' : Key} {l : Leaf} {ls : List Leaf} {J J' : Entries}

/-- A leaf below a key goes into the table of that name, which keeps its own key. -/
theorem addLeaf?_below_old {info : TableInfo} (hname : k'.name = k.name)
    (hkind : info.kind ≠ .header) (hA : k.name ∉ names A) (hB : k.name ∉ names B)
    (h : addLeaf? l J = some J') :
    addLeaf? (l.below [k']) (A ++ (k, .table info J) :: B) =
      some (A ++ (k, .table { info with kind := .dotted } J') :: B) := by
  rw [addLeaf?, Leaf.below, List.singleton_append, Toml.addMember?, hname, find?_split k hA]
  simp only [if_neg hkind]
  rw [show Toml.addMember? l.path l.key (.value l.text l.value) J = some J' from h]
  simp only [Option.map_some]
  rw [replace_split k _ hA hB]

/-- Leaves below the key of a table with dots are added to that table, whichever way the key is
written. -/
theorem addLeaves?_below_dotted (hname : k'.name = k.name) (hA : k.name ∉ names A)
    (hB : k.name ∉ names B) (h : addLeaves? ls J = some J') :
    addLeaves? (ls.map (Leaf.below [k'])) (A ++ (k, .table (.unnamed .dotted) J) :: B) =
      some (A ++ (k, .table (.unnamed .dotted) J') :: B) := by
  induction ls generalizing J with
  | nil =>
    cases h
    rfl
  | cons l rest ih =>
    obtain ⟨J₁, hl, hrest⟩ := Option.bind_eq_some_iff.1 h
    rw [List.map_cons, addLeaves?,
      addLeaf?_below_old hname (by simp [TableInfo.unnamed]) hA hB hl]
    exact ih hrest

/-- Leaves below a key make a table with dots of one that only stood above headers. -/
theorem addLeaves?_below_above (hne : ls ≠ []) (hname : k'.name = k.name)
    (hA : k.name ∉ names A) (hB : k.name ∉ names B) (h : addLeaves? ls J = some J') :
    addLeaves? (ls.map (Leaf.below [k'])) (A ++ (k, .table (.unnamed .aboveHeader) J) :: B) =
      some (A ++ (k, .table (.unnamed .dotted) J') :: B) := by
  obtain ⟨l, rest, rfl⟩ := List.exists_cons_of_ne_nil hne
  obtain ⟨J₁, hl, hrest⟩ := Option.bind_eq_some_iff.1 h
  rw [List.map_cons, addLeaves?, addLeaf?_below_old hname (by simp [TableInfo.unnamed]) hA hB hl]
  exact addLeaves?_below_dotted hname hA hB hrest

end Below

/-- Leaves below a new name make one table with dots for all of them. -/
theorem addLeaves?_below_new {k : Key} {ls : List Leaf} {inner : Entries}
    (hne : ls ≠ []) (hX : k.name ∉ names X) (h : addLeaves? ls [] = some inner) :
    addLeaves? (ls.map (Leaf.below [k])) X =
      some (X ++ [(k, .table (.unnamed .dotted) inner)]) := by
  obtain ⟨l, rest, rfl⟩ := List.exists_cons_of_ne_nil hne
  obtain ⟨J, hl, hrest⟩ := Option.bind_eq_some_iff.1 h
  rw [List.map_cons, addLeaves?, addLeaf?_below_new hX hl]
  exact addLeaves?_below_dotted rfl hX (by simp) hrest

/-- A tree that keys with dots have made has a leaf. -/
theorem itemLeaves_ne_nil {k : Key} (h : Branch IsInner IsLeaf IsText n k item) (path : List Key) :
    itemLeaves path k item ≠ [] := by
  induction h generalizing path with
  | leaf => simp [itemLeaves]
  | @dotted n k inner hk hne hd hin ih =>
    obtain ⟨e, rest, rfl⟩ := List.exists_cons_of_ne_nil hne
    obtain ⟨k', item'⟩ := e
    rw [itemLeaves, if_pos (show (TableInfo.unnamed .dotted).kind = .dotted from rfl), leaves]
    exact List.append_ne_nil_of_left_ne_nil (ih (k', item') List.mem_cons_self _) _

/-- Trees are made one behind the other. -/
theorem addLeaves?_of_each {J Y : Entries}
    (h : ∀ e ∈ J, ∀ Y : Entries, e.1.name ∉ names Y →
      Toml.addLeaves? (itemLeaves [] e.1 e.2) Y = some (Y ++ [e]))
    (hdist : Distinct J) (hnew : ∀ n ∈ names J, n ∉ names Y) :
    Toml.addLeaves? (leaves [] J) Y = some (Y ++ J) := by
  induction J generalizing Y with
  | nil =>
    rw [List.append_nil]
    rfl
  | cons e rest ih =>
    obtain ⟨k, item⟩ := e
    have hnodup := List.nodup_cons.1 (show (k.name :: names rest).Nodup from hdist)
    have hsplit : Y ++ (k, item) :: rest = Y ++ [(k, item)] ++ rest := by simp
    rw [leaves, addLeaves?_append, h (k, item) List.mem_cons_self Y (hnew _ (by simp)),
      Option.bind_some, hsplit]
    refine ih (fun e he => h e (List.mem_cons_of_mem _ he)) hnodup.2 ?_
    intro n hn
    rw [names_append, List.mem_append]
    rintro (hm | hm)
    · exact hnew n (by simp [hn]) hm
    · simp only [names_cons, names_nil, List.mem_singleton] at hm
      exact hnodup.1 (hm ▸ hn)

/-- One tree is made behind whatever has other names, by induction over the tree. -/
theorem Branch.addLeaves? {k : Key} (h : Branch IsInner IsLeaf IsText n k item) :
    ∀ X : Entries, k.name ∉ names X →
      Toml.addLeaves? (itemLeaves [] k item) X = some (X ++ [(k, item)]) := by
  induction h with
  | leaf =>
    intro X hX
    simp [itemLeaves, Toml.addLeaves?, addLeaf?, Toml.addMember?, find?_eq_none_iff.2 hX]
  | @dotted n k inner hk hne hd hin ih =>
    intro X hX
    have hinner : Toml.addLeaves? (leaves [] inner) [] = some inner :=
      addLeaves?_of_each ih hd (by simp)
    have hleaves : leaves [] inner ≠ [] := by
      obtain ⟨e, he⟩ := List.exists_mem_of_ne_nil _ hne
      exact leaves_ne_nil_of_mem he (itemLeaves_ne_nil (hin e he) _)
    rw [itemLeaves_dotted]
    exact addLeaves?_below_new hleaves hX hinner

/-- **The leaves of trees make them again**, behind whatever has other names. -/
theorem Forest.addLeaves? (hE : Forest IsInner IsLeaf IsText n E)
    (hX : ∀ n ∈ names E, n ∉ names X) :
    Toml.addLeaves? (leaves [] E) X = some (X ++ E) :=
  addLeaves?_of_each (fun e he => (hE.branches e he).addLeaves?) hE.distinct hX

end Forest

end SessionHost.Toml
