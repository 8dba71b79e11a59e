import Mathlib.Data.List.Forall2
import Mathlib.Data.List.Induction
import SessionHost.Proofs.Toml.Headers

/-!
# The headers of a tree make it again

What is written for a tree names each of its tables by the keys that stand in the tree, which need
not be those of the header that made it: a table above other headers is written as it was first
written, or as its own header writes it; and a key with dots that leads into it is written with the
key that stands there.  Still, the headers that are written make the same tree when they come in the
order of their numbers.

Main definitions:

- `entrySheets`: the headers that are written for a tree.
- `Alike`: trees that differ in how tables above headers are written.
- `Uprooted`: the header that came last taken out of a tree.

Main results:

- Theorem `Placed.uproot`: one header can be taken out.
- Theorem `regrow`: the headers that are written make the tree again.
-/

namespace SessionHost.Toml

variable {A B E F S S' T T' X : Entries} {p : Plot} {path : List Key}

/-! ## The headers that are written -/

mutual

/-- The headers that are written for the tables below entries. -/
def entrySheets (path : List Key) : List (Key × Item) → List Sheet
  | [] => []
  | (key, item) :: rest => itemSheets path key item ++ entrySheets path rest

/-- The headers that are written for an item under its key. -/
def itemSheets (path : List Key) (key : Key) : Item → List Sheet
  | .value _ _ => []
  | .table info entries =>
    if info.kind = .header then
      ⟨false, path, key, info.position, info.before, info.after, leaves [] (lines entries)⟩ ::
        entrySheets (path ++ [key.asInner]) entries
    else
      entrySheets (path ++ [key.asInner]) entries
  | .tables elements => elementSheets path key elements

/-- The headers that are written for an array of tables. -/
def elementSheets (path : List Key) (key : Key) :
    List (TableInfo × List (Key × Item)) → List Sheet
  | [] => []
  | (info, entries) :: rest =>
    ⟨true, path, key, info.position, info.before, info.after, leaves [] (lines entries)⟩ ::
      (entrySheets (path ++ [key.asInner]) entries ++ elementSheets path key rest)

end

/-- The headers below two halves of a table stand one behind the other. -/
theorem entrySheets_append (path : List Key) (A B : Entries) :
    entrySheets path (A ++ B) = entrySheets path A ++ entrySheets path B := by
  induction A with
  | nil => rfl
  | cons e rest ih => rw [List.cons_append, entrySheets, entrySheets, ih, List.append_assoc]

/-- The headers below one entry stand between those of the others. -/
theorem entrySheets_split (path : List Key) (A B : Entries) (k : Key) (item : Item) :
    entrySheets path (A ++ (k, item) :: B) =
      entrySheets path A ++ (itemSheets path k item ++ entrySheets path B) := by
  rw [entrySheets_append, entrySheets]

theorem entrySheets_concat (path : List Key) (A : Entries) (k : Key) (item : Item) :
    entrySheets path (A ++ [(k, item)]) = entrySheets path A ++ itemSheets path k item := by
  rw [entrySheets_append, entrySheets, entrySheets, List.append_nil]

theorem elementSheets_append (path : List Key) (key : Key)
    (ts us : List (TableInfo × List (Key × Item))) :
    elementSheets path key (ts ++ us) = elementSheets path key ts ++ elementSheets path key us := by
  induction ts with
  | nil => rfl
  | cons t rest ih => rw [List.cons_append, elementSheets, elementSheets, ih]; simp

/-- The last element of an array of tables gives the last header of the array. -/
theorem elementSheets_concat (path : List Key) (key : Key)
    (ts : List (TableInfo × List (Key × Item))) (info : TableInfo) (E : Entries) :
    elementSheets path key (ts ++ [(info, E)]) = elementSheets path key ts ++
      ⟨true, path, key, info.position, info.before, info.after, leaves [] (lines E)⟩ ::
        entrySheets (path ++ [key.asInner]) E := by
  rw [elementSheets_append, elementSheets, elementSheets, List.append_nil]

/-- A table that a header has made gives that header first, then what is below it. -/
theorem itemSheets_header {info : TableInfo} (h : info.kind = .header) (pre : List Key) (k : Key)
    (E : Entries) : itemSheets pre k (.table info E) =
      ⟨false, pre, k, info.position, info.before, info.after, leaves [] (lines E)⟩ ::
        entrySheets (pre ++ [k.asInner]) E := by
  rw [itemSheets, if_pos h]

/-- A table that no header has made gives only what is below it. -/
theorem itemSheets_of_kind {info : TableInfo} (h : info.kind ≠ .header) (pre : List Key) (k : Key)
    (E : Entries) :
    itemSheets pre k (.table info E) = entrySheets (pre ++ [k.asInner]) E := by
  rw [itemSheets, if_neg h]

section Forest

variable {IsInner IsLeaf : Key → Prop} {IsText : String → Value → Prop} {n : Nat}

/-- If no entry gives a header, there is none below the table. -/
theorem entrySheets_of_each (path : List Key) (h : ∀ e ∈ E, itemSheets path e.1 e.2 = []) :
    entrySheets path E = [] := by
  induction E with
  | nil => rfl
  | cons e rest ih =>
    rw [entrySheets, h e List.mem_cons_self, ih fun e he => h e (List.mem_cons_of_mem _ he)]
    rfl

/-- A tree that keys with dots have made has no headers. -/
theorem Branch.itemSheets {k : Key} {item : Item} (h : Branch IsInner IsLeaf IsText n k item) :
    ∀ path : List Key, itemSheets path k item = [] := by
  induction h with
  | leaf => exact fun _ => rfl
  | @dotted n k inner hk hne hd hin ih =>
    intro path
    rw [Toml.itemSheets, if_neg (by simp)]
    exact entrySheets_of_each _ fun e he => ih e he _

/-- No headers are written for a tree that keys with dots have made. -/
theorem Forest.entrySheets (hE : Forest IsInner IsLeaf IsText n E) (path : List Key) :
    entrySheets path E = [] :=
  entrySheets_of_each path fun e he => (hE.branches e he).itemSheets path

end Forest

/-! ## Trees that are alike -/

mutual

/-- The same under the same name; the keys of tables above headers may differ in other things. -/
inductive Alike : Key × Item → Key × Item → Prop where
  | value {k : Key} {text : String} {v : Value} : Alike (k, .value text v) (k, .value text v)
  | table {k k' : Key} {info : TableInfo} {inner inner' : List (Key × Item)}
      (hname : k'.name = k.name) (hk : k' = k ∨ info = .unnamed .aboveHeader ∧ IsInnerKey k')
      (h : List.Forall₂ Alike inner inner') : Alike (k, .table info inner) (k', .table info inner')
  | tables {k : Key} {elements elements' : List (TableInfo × List (Key × Item))}
      (h : List.Forall₂ AlikeElement elements elements') :
      Alike (k, .tables elements) (k, .tables elements')

/-- The same for the elements of arrays. -/
inductive AlikeElement : TableInfo × List (Key × Item) → TableInfo × List (Key × Item) → Prop where
  | mk {info : TableInfo} {inner inner' : List (Key × Item)} (h : List.Forall₂ Alike inner inner') :
      AlikeElement (info, inner) (info, inner')

end

/-- Trees that are alike. -/
abbrev AlikeTrees (E F : Entries) : Prop := List.Forall₂ Alike E F

section Forall

variable {α β : Type} {R : α → β → Prop}

/-- A relation between lists cuts the second where the first is cut. -/
theorem forall₂_append_left {l l' : List α} {m : List β} (h : List.Forall₂ R (l ++ l') m) :
    ∃ k k', m = k ++ k' ∧ List.Forall₂ R l k ∧ List.Forall₂ R l' k' := by
  induction l generalizing m with
  | nil => exact ⟨[], m, rfl, .nil, h⟩
  | cons a rest ih =>
    obtain ⟨b, m', hb, hm', rfl⟩ := List.forall₂_cons_left_iff.1 h
    obtain ⟨k, k', rfl, hk, hk'⟩ := ih hm'
    exact ⟨b :: k, k', rfl, .cons hb hk, hk'⟩

/-- The partner of one element stands between the partners of the others. -/
theorem forall₂_split {a : α} {l l' : List α} {m : List β}
    (h : List.Forall₂ R (l ++ a :: l') m) :
    ∃ b k k', m = k ++ b :: k' ∧ List.Forall₂ R l k ∧ R a b ∧ List.Forall₂ R l' k' := by
  obtain ⟨k, m', rfl, hk, hm'⟩ := forall₂_append_left h
  obtain ⟨b, k', hb, hk', rfl⟩ := List.forall₂_cons_left_iff.1 hm'
  exact ⟨b, k, k', rfl, hk, hb, hk'⟩

/-- The partner of the last element is the last one. -/
theorem forall₂_concat {a : α} {l : List α} {m : List β} (h : List.Forall₂ R (l ++ [a]) m) :
    ∃ b k, m = k ++ [b] ∧ List.Forall₂ R l k ∧ R a b := by
  obtain ⟨b, k, k', rfl, hk, hb, hk'⟩ := forall₂_split h
  cases hk'
  exact ⟨b, k, rfl, hk, hb⟩

/-- Partners of the halves and of the element between them make partners of the whole. -/
theorem forall₂_join {a : α} {b : β} {l l' : List α} {k k' : List β} (hl : List.Forall₂ R l k)
    (hab : R a b) (hl' : List.Forall₂ R l' k') : List.Forall₂ R (l ++ a :: l') (k ++ b :: k') := by
  induction hl with
  | nil => exact .cons hab hl'
  | cons h _ ih => exact .cons h ih

/-- Every element of the second list has a partner in the first. -/
theorem forall₂_mem_right {l : List α} {m : List β} (h : List.Forall₂ R l m) {b : β} (hb : b ∈ m) :
    ∃ a ∈ l, R a b := by
  induction h with
  | nil => cases hb
  | cons hab _ ih =>
    rcases List.mem_cons.1 hb with rfl | hb
    · exact ⟨_, List.mem_cons_self, hab⟩
    · obtain ⟨a, ha, hab⟩ := ih hb
      exact ⟨a, List.mem_cons_of_mem _ ha, hab⟩

end Forall

/-- Entries that are alike have one name. -/
theorem Alike.name {e e' : Key × Item} (h : Alike e e') : e'.1.name = e.1.name := by
  cases h with
  | value => rfl
  | table hname => exact hname
  | tables => rfl

/-- Trees that are alike have the same names in the same order. -/
theorem AlikeTrees.names (h : AlikeTrees E F) : names F = names E := by
  induction h with
  | nil => rfl
  | cons he _ ih => rw [names_cons, names_cons, he.name, ih]

mutual

/-- Trees that are alike have one trunk: they differ in keys of tables above headers only. -/
theorem AlikeTrees.trunk : ∀ (E F : List (Key × Item)), AlikeTrees E F → trunk F = trunk E
  | [], _, h => by
    cases h
    rfl
  | (k, item) :: rest, F, h => by
    obtain ⟨e', F', he, hF, rfl⟩ := List.forall₂_cons_left_iff.1 h
    rw [Toml.trunk, Toml.trunk, AlikeTrees.trunk rest F' hF, Alike.trunk item k e' he]

/-- Entries that are alike have one trunk. -/
theorem Alike.trunk : ∀ (item : Item) (k : Key) (e' : Key × Item), Alike (k, item) e' →
    itemTrunk e'.1 e'.2 = itemTrunk k item
  | .value _ _, _, _, h => by
    cases h
    rfl
  | .table info inner, k, _, h => by
    cases h with
    | @table _ k' _ _ inner' hname hk h =>
      rw [itemTrunk, itemTrunk, AlikeTrees.trunk inner inner' h]
      rcases hk with rfl | ⟨rfl, -⟩
      · rfl
      · rw [if_neg (by simp), if_neg (by simp)]
  | .tables _, _, _, h => by
    cases h
    rfl

end

/-- What has grown is like itself. -/
theorem Growth.alike_refl {k : Key} {item : Item} (h : Growth k item) :
    Alike (k, item) (k, item) := by
  induction h with
  | value => exact .value
  | dotted _ _ _ ih => exact .table rfl (.inl rfl) (List.forall₂_same.2 ih)
  | above _ _ _ _ ih => exact .table rfl (.inl rfl) (List.forall₂_same.2 ih)
  | header _ _ _ _ ih => exact .table rfl (.inl rfl) (List.forall₂_same.2 ih)
  | tables _ _ _ _ ih =>
    exact .tables (List.forall₂_same.2 fun t ht => .mk (List.forall₂_same.2 (ih t ht)))

/-- A tree is like itself. -/
theorem Grove.alike_refl (hE : Grove E) : AlikeTrees E E :=
  List.forall₂_same.2 fun e he => (hE.growth e he).alike_refl

/-- A tree that is like one with different names has different names. -/
theorem distinct_of_alike (hE : Distinct E) (h : AlikeTrees E F) : Distinct F := by
  rw [Distinct, h.names]
  exact hE

/-- What is alike grows alike. -/
theorem Growth.alike {k : Key} {item : Item} (h : Growth k item) :
    ∀ e', Alike (k, item) e' → Growth e'.1 e'.2 := by
  have heach {inner inner' : Entries}
      (ih : ∀ e ∈ inner, ∀ e', Alike (e.1, e.2) e' → Growth e'.1 e'.2)
      (hinner : AlikeTrees inner inner') : ∀ e' ∈ inner', Growth e'.1 e'.2 := by
    intro e' he'
    obtain ⟨e, he, halike⟩ := forall₂_mem_right hinner he'
    exact ih e he e' halike
  induction h with
  | value hk =>
    intro e' h
    cases h
    exact .value hk
  | dotted hk hd _ ih =>
    intro e' h
    cases h with
    | table _ hkey h =>
      obtain rfl | ⟨hinfo, -⟩ := hkey
      · exact .dotted hk (distinct_of_alike hd h) (heach ih h)
      · cases hinfo
  | above hk htrunk hd _ ih =>
    intro e' h
    cases h with
    | table _ hkey h =>
      have htrunk' := (AlikeTrees.trunk _ _ h).trans htrunk
      obtain rfl | ⟨-, hk'⟩ := hkey
      · exact .above hk htrunk' (distinct_of_alike hd h) (heach ih h)
      · exact .above hk' htrunk' (distinct_of_alike hd h) (heach ih h)
  | header hk hkind hd _ ih =>
    intro e' h
    cases h with
    | table _ hkey h =>
      obtain rfl | ⟨rfl, -⟩ := hkey
      · exact .header hk hkind (distinct_of_alike hd h) (heach ih h)
      · cases hkind
  | tables hk hkind hd _ ih =>
    intro e' h
    cases h with
    | tables h =>
      refine Growth.tables_iff.2 ⟨hk, fun t' ht' => ?_⟩
      obtain ⟨t, ht, halike⟩ := forall₂_mem_right h ht'
      cases halike with
      | mk halike =>
        have hheader := hkind _ ht
        exact ⟨hheader, distinct_of_alike (hd _ ht) halike, heach (ih _ ht) halike⟩

/-- What is like a tree of a document could stand in a document, too. -/
theorem Grove.alike (hE : Grove E) (h : AlikeTrees E F) : Grove F := by
  refine ⟨distinct_of_alike hE.distinct h, fun e' he' => ?_⟩
  obtain ⟨e, he, halike⟩ := forall₂_mem_right h he'
  exact (hE.growth e he).alike e' halike

section Forest

variable {IsInner IsLeaf : Key → Prop} {IsText : String → Value → Prop} {n : Nat}

/-- Lists are equal if partners are. -/
theorem forall₂_eq {α : Type} {R : α → α → Prop} {l m : List α} (h : List.Forall₂ R l m)
    (heq : ∀ a ∈ l, ∀ b, R a b → b = a) : m = l := by
  induction h with
  | nil => rfl
  | cons hab _ ih =>
    rw [heq _ List.mem_cons_self _ hab, ih fun a ha => heq a (List.mem_cons_of_mem _ ha)]

/-- Nothing but itself is like a tree that keys with dots have made. -/
theorem Branch.eq_of_alike {k : Key} {item : Item} (h : Branch IsInner IsLeaf IsText n k item) :
    ∀ e', Alike (k, item) e' → e' = (k, item) := by
  induction h with
  | leaf =>
    intro e' h
    cases h
    rfl
  | dotted _ _ _ _ ih =>
    intro e' h
    cases h with
    | table _ hkey h =>
      obtain rfl | ⟨hinfo, -⟩ := hkey
      · rw [forall₂_eq h ih]
      · cases hinfo

/-- Only the same is alike to a tree that keys with dots have made. -/
theorem Forest.eq_of_alike (hE : Forest IsInner IsLeaf IsText n E) (h : AlikeTrees E F) : F = E :=
  forall₂_eq h fun e he => (hE.branches e he).eq_of_alike

end Forest

/-! ## Keys in tables that stood above headers -/

section Sown

variable {I X' : Entries} {n : Nat}

/-- Keys in a table that stood above headers change nothing in those headers. -/
theorem Sown.entrySheets (h : Sown n I X) (path : List Key) :
    entrySheets path X = entrySheets path I := by
  induction h generalizing path with
  | fresh h => exact h.entrySheets path
  | kept _ _ _ ih => rw [Toml.entrySheets, Toml.entrySheets, ih]
  | opened _ _ _ _ _ ihown ih =>
    rw [Toml.entrySheets, Toml.entrySheets, itemSheets_of_kind (by simp),
      itemSheets_of_kind (by simp), ihown, ih]

/-- An entry before both tables does not matter to which keys are new. -/
theorem keys_cons {e e' : Key × Item} {J : Entries}
    (h : ∀ k ∈ X'.map (·.1), k.name ∉ names J → k ∈ X.map (·.1)) :
    ∀ k ∈ (e' :: X').map (·.1), k.name ∉ names (e' :: J) → k ∈ (e :: X).map (·.1) := by
  intro k hk hnew
  rw [names_cons, List.mem_cons, not_or] at hnew
  rcases List.mem_cons.1 hk with rfl | hk
  · exact absurd rfl hnew.1
  · exact List.mem_cons_of_mem _ (h k hk hnew.2)

/-- What is alike to a table with new keys is that of one alike to the old table, with the same new
keys. -/
theorem Sown.alike (h : Sown n I X) (hX' : AlikeTrees X X') :
    ∃ I', AlikeTrees I I' ∧ Sown n I' X' ∧
      ∀ k ∈ X'.map (·.1), k.name ∉ names I' → k ∈ X.map (·.1) := by
  induction h generalizing X' with
  | @fresh n F h =>
    rw [h.eq_of_alike hX']
    exact ⟨[], .nil, .fresh h, fun _ hk _ => hk⟩
  | @kept n k item I X hgrowth htrunk _ ih =>
    obtain ⟨⟨k', item'⟩, X₁, he, hX₁, rfl⟩ := List.forall₂_cons_left_iff.1 hX'
    obtain ⟨I', hI', hsown, hkeys⟩ := ih hX₁
    have htrunk' : itemTrunk k' item' = [] := (Alike.trunk item k _ he).trans htrunk
    refine ⟨(k', item') :: I', .cons he hI', .kept (hgrowth.alike _ he) htrunk' hsown, ?_⟩
    exact keys_cons hkeys
  | @opened n k inner own I X hk hd hne _ _ ihown ih =>
    obtain ⟨_, X₁, he, hX₁, rfl⟩ := List.forall₂_cons_left_iff.1 hX'
    obtain ⟨I', hI', hsown, hkeys⟩ := ih hX₁
    cases he with
    | table _ hkey hown =>
      obtain rfl | ⟨hinfo, -⟩ := hkey
      · obtain ⟨inner', hinner, hsown', -⟩ := ihown hown
        have hne' := leaves_of_trunk_eq (AlikeTrees.trunk _ _ hown) [] ▸ hne
        exact ⟨_, .cons (.table rfl (.inl rfl) hinner) hI',
          .opened hk (distinct_of_alike hd hown) hne' hsown' hsown, keys_cons hkeys⟩
      · cases hinfo

/-- What is like a tree with a part planted is itself one with a like part planted. -/
theorem Planted.alike (h : Planted I X) (hX' : AlikeTrees X X') :
    ∃ I', AlikeTrees I I' ∧ Planted I' X' := by
  obtain ⟨I', hI', hsown, hkeys⟩ := h.sown.alike hX'
  refine ⟨I', hI', hsown, distinct_of_alike h.distinct hX', fun k hk hnew => ?_⟩
  exact h.root k (hkeys k hk hnew) (hI'.names ▸ hnew)

end Sown

/-! ## Taking out the last header -/

/-- The sheet of a plot under other keys, with other keys of its own. -/
def Plot.sheetAt (p : Plot) (path : List Key) (key : Key) (own : Entries) : Sheet :=
  ⟨p.doubled, path, key, p.position, p.before, p.after, leaves [] own⟩

/-- A tree that a header has come to as that header written under other keys, and a tree like the
one before it. -/
structure Uprooted (p : Plot) (path : List Key) (S T' : Entries) (path' : List Key) (key' : Key)
    (own' S' : Entries) : Prop where
  placed : Placed { p with key := key', own := own' } path' S' T'
  alike : AlikeTrees S S'
  length : path'.length = path.length
  path : ∀ k ∈ path', IsInnerKey k
  key : IsLeafKey IsBlank IsBlank key'
  own : LineForest own'
  root : RootKeys T' → RootKeys S' ∧ ∀ k ∈ (path' ++ [key']).head?, k.behindDot = ""
  sheets : ∀ pre,
    (entrySheets pre T').Perm (p.sheetAt (pre ++ path') key' own' :: entrySheets pre S')

/-- The key of what has grown is sound. -/
theorem Growth.sound {k : Key} {item : Item} (h : Growth k item) : k.Sound := by
  cases h with
  | value hk => exact hk.sound
  | dotted hk => exact hk.sound
  | above hk => exact hk.sound
  | header hk => exact hk.sound
  | tables hk => exact hk.sound

theorem RootKeys.of_append (h : RootKeys (A ++ B)) : RootKeys A ∧ RootKeys B :=
  ⟨fun e he => h e (List.mem_append_left _ he), fun e he => h e (List.mem_append_right _ he)⟩

/-- Another item under a key changes nothing about the dots before keys. -/
theorem RootKeys.change {k : Key} {item other : Item} (h : RootKeys (A ++ (k, item) :: B)) :
    RootKeys (A ++ (k, other) :: B) := by
  intro e he
  rcases List.mem_append.1 he with he | he
  · exact h e (List.mem_append_left _ he)
  · rcases List.mem_cons.1 he with rfl | he
    · exact h (k, item) (by simp)
    · exact h e (List.mem_append_right _ (List.mem_cons_of_mem _ he))

/-- No dot stands before a key of such a table. -/
theorem RootKeys.key_split {k : Key} {item : Item} (h : RootKeys (A ++ (k, item) :: B)) :
    k.behindDot = "" := h (k, item) (by simp)

/-- One more header under one of the keys is one more under all of them. -/
theorem perm_entrySheets {pre : List Key} {k : Key} {item other : Item} {s : Sheet}
    (h : (itemSheets pre k item).Perm (s :: itemSheets pre k other)) :
    (entrySheets pre (A ++ (k, item) :: B)).Perm (s :: entrySheets pre (A ++ (k, other) :: B)) := by
  rw [entrySheets_split, entrySheets_split]
  refine (List.Perm.append_left _ (h.append_right _)).trans ?_
  exact List.perm_middle

/-- What is like a table of a header has the same key and header, and is alike inside. -/
theorem Alike.of_header {k : Key} {info : TableInfo} {inner : Entries} {e : Key × Item}
    (h : Alike (k, .table info inner) e) (hkind : info.kind = .header) :
    ∃ inner', e = (k, .table info inner') ∧ AlikeTrees inner inner' := by
  cases h with
  | table _ hk h =>
    obtain rfl | ⟨rfl, -⟩ := hk
    · exact ⟨_, rfl, h⟩
    · cases hkind

/-- A name that is not in a tree is in none that is like it. -/
theorem notMem_of_alike {n : String} (h : AlikeTrees E F) (hn : n ∉ names E) : n ∉ names F := by
  rwa [h.names]

section Cases

variable {A' B' X' inner inner' changed' own' : Entries} {k k' key' : Key} {path' : List Key}
  {info : TableInfo} {elements elements' : List (TableInfo × Entries)}

/-- A table under a new name can be taken up again. -/
theorem uprooted_table (hp : p.Sound) (hdoubled : p.doubled = false) (hS : p.key.name ∉ names S)
    (h : AlikeTrees S S') :
    Uprooted p [] S (S' ++ [(p.key, .table p.info p.own)]) [] p.key p.own S' where
  placed := .table hdoubled (notMem_of_alike h hS)
  alike := h
  length := rfl
  path := by simp
  key := hp.key
  own := hp.own
  root hroot := ⟨hroot.of_append.1, by simpa using hroot.of_append.2 _ List.mem_cons_self⟩
  sheets pre := by
    rw [entrySheets_concat, itemSheets_header rfl, hp.own.forest.entrySheets, hp.own.lines,
      List.append_nil, Plot.sheetAt, hdoubled]
    exact List.perm_append_singleton _ _

/-- A new array of tables can be taken up again. -/
theorem uprooted_array (hp : p.Sound) (hdoubled : p.doubled = true) (hS : p.key.name ∉ names S)
    (h : AlikeTrees S S') :
    Uprooted p [] S (S' ++ [(p.key, .tables [(p.info, p.own)])]) [] p.key p.own S' where
  placed := .array hdoubled (notMem_of_alike h hS)
  alike := h
  length := rfl
  path := by simp
  key := hp.key
  own := hp.own
  root hroot := ⟨hroot.of_append.1, by simpa using hroot.of_append.2 _ List.mem_cons_self⟩
  sheets pre := by
    rw [entrySheets_concat, itemSheets, elementSheets, hp.own.forest.entrySheets, elementSheets,
      hp.own.lines, List.append_nil, List.append_nil, Plot.sheetAt, hdoubled]
    exact List.perm_append_singleton _ _

/-- The table stood above other headers, under the key of the header itself; its own keys are those
that are written. -/
theorem uprooted_raised (hp : p.Sound) (hdoubled : p.doubled = false) (hk : k.name = p.key.name)
    (hA : k.name ∉ names A) (hB : k.name ∉ names B) (hAA' : AlikeTrees A A')
    (hBB' : AlikeTrees B B') (hinner : AlikeTrees inner inner') (hX' : Planted inner' X') :
    Uprooted p [] (A ++ (k, .table (.unnamed .aboveHeader) inner) :: B)
      (A' ++ B' ++ [(p.key, .table p.info X')]) [] p.key (lines X')
      (A' ++ (p.key.asInner, .table (.unnamed .aboveHeader) inner') :: B') where
  placed := by
    rw [hk] at hA hB
    exact Placed.raised (p := { p with own := lines X' }) hdoubled rfl (notMem_of_alike hAA' hA)
      (notMem_of_alike hBB' hB) hX'.addLeaves?_lines
  own := hX'.lineForest
  alike := forall₂_join hAA' (.table hk.symm (.inr ⟨rfl, hp.key.sound.asInner⟩) hinner) hBB'
  length := rfl
  path := by simp
  key := hp.key
  root hroot := by
    obtain ⟨hAB, hkey⟩ := hroot.of_append
    have hdot : p.key.behindDot = "" := hkey _ List.mem_cons_self
    refine ⟨fun e he => ?_, by simpa using hdot⟩
    rcases List.mem_append.1 he with he | he
    · exact hAB.of_append.1 e he
    · rcases List.mem_cons.1 he with rfl | he
      · exact hdot
      · exact hAB.of_append.2 e he
  sheets pre := by
    rw [entrySheets_concat, itemSheets_header rfl, entrySheets_append, hX'.sown.entrySheets,
      entrySheets_split, itemSheets_of_kind (by simp), Plot.sheetAt, hdoubled, List.append_nil]
    refine List.perm_middle.trans (List.Perm.cons _ ?_)
    rw [List.append_assoc]
    exact List.perm_append_comm.append_left _

/-- A new element behind others of an array can be taken up again. -/
theorem uprooted_element (hp : p.Sound) (hdoubled : p.doubled = true) (hA : k.name ∉ names A)
    (hB : k.name ∉ names B) (hk : IsLeafKey IsBlank IsBlank k) (hAA' : AlikeTrees A A')
    (hBB' : AlikeTrees B B') (helements : List.Forall₂ AlikeElement elements elements') :
    Uprooted p [] (A ++ (k, .tables elements) :: B)
      (A' ++ (k, .tables (elements' ++ [(p.info, p.own)])) :: B') [] k p.own
      (A' ++ (k, .tables elements') :: B') where
  placed := Placed.element (p := { p with key := k }) hdoubled rfl (notMem_of_alike hAA' hA)
    (notMem_of_alike hBB' hB)
  alike := forall₂_join hAA' (.tables helements) hBB'
  length := rfl
  path := by simp
  key := hk
  own := hp.own
  root hroot := ⟨hroot.change, by simpa using hroot.key_split⟩
  sheets pre := by
    refine perm_entrySheets ?_
    rw [itemSheets, itemSheets, elementSheets_concat, hp.own.forest.entrySheets, hp.own.lines,
      Plot.sheetAt, hdoubled, List.append_nil]
    exact List.perm_append_singleton _ _

/-- What can be taken up below a table above headers can be taken up with it, if that table was
made for it. -/
theorem Uprooted.above (h : Uprooted p path [] changed' path' key' own' []) (hk' : IsInnerKey k')
    (hname : k'.name = k.name) (hS : k.name ∉ names S) (hSS' : AlikeTrees S S') :
    Uprooted p (k :: path) S (S' ++ [(k', .table (.unnamed .aboveHeader) changed')])
      (k' :: path') key' own' S' where
  placed := .above (notMem_of_alike hSS' (hname ▸ hS)) h.placed
  alike := hSS'
  length := by simp [h.length]
  path := by simpa using ⟨hk', h.path⟩
  key := h.key
  own := h.own
  root hroot := ⟨hroot.of_append.1, by simpa using hroot.of_append.2 _ List.mem_cons_self⟩
  sheets pre := by
    have hsheets := h.sheets (pre ++ [k'.asInner])
    rw [List.append_assoc, List.singleton_append, hk'.asInner] at hsheets
    rw [entrySheets_concat, itemSheets_of_kind (by simp), hk'.asInner]
    exact (hsheets.append_left _).trans (List.perm_append_singleton _ _)

/-- What can be taken up inside a table can be taken up in the tree that holds this table. -/
theorem Uprooted.within (h : Uprooted p path inner changed' path' key' own' inner')
    (hname : k'.name = k.name) (hk' : k'.Sound)
    (hkey : k' = k ∨ info = .unnamed .aboveHeader ∧ IsInnerKey k') (hA : k.name ∉ names A)
    (hB : k.name ∉ names B) (hAA' : AlikeTrees A A') (hBB' : AlikeTrees B B') {k₀ : Key} :
    Uprooted p (k₀ :: path) (A ++ (k, .table info inner) :: B)
      (A' ++ (k', .table info changed') :: B') (k'.asInner :: path') key' own'
      (A' ++ (k', .table info inner') :: B') where
  placed := .within rfl (notMem_of_alike hAA' (hname ▸ hA)) (notMem_of_alike hBB' (hname ▸ hB))
    h.placed
  alike := forall₂_join hAA' (.table hname hkey h.alike) hBB'
  length := by simp [h.length]
  path := by simpa using ⟨hk'.asInner, h.path⟩
  key := h.key
  own := h.own
  root hroot := by
    have hdot := hroot.key_split
    exact ⟨hroot.change, by simpa [Key.asInner] using hdot⟩
  sheets pre := by
    have hsheets := h.sheets (pre ++ [k'.asInner])
    rw [List.append_assoc, List.singleton_append] at hsheets
    refine perm_entrySheets ?_
    by_cases hkind : info.kind = .header
    · rw [itemSheets_header hkind, itemSheets_header hkind, lines_of_trunk_eq h.placed.trunk]
      exact (hsheets.cons _).trans (List.Perm.swap _ _ _)
    · rw [itemSheets_of_kind hkind, itemSheets_of_kind hkind]
      exact hsheets

/-- What can be taken up inside the last element of an array can be taken up in the tree that
holds this array. -/
theorem Uprooted.last (h : Uprooted p path inner changed' path' key' own' inner') (hk : k.Sound)
    (hA : k.name ∉ names A) (hB : k.name ∉ names B) (hAA' : AlikeTrees A A')
    (hBB' : AlikeTrees B B') (helements : List.Forall₂ AlikeElement elements elements')
    {k₀ : Key} :
    Uprooted p (k₀ :: path) (A ++ (k, .tables (elements ++ [(info, inner)])) :: B)
      (A' ++ (k, .tables (elements' ++ [(info, changed')])) :: B') (k.asInner :: path') key' own'
      (A' ++ (k, .tables (elements' ++ [(info, inner')])) :: B') where
  placed := .last rfl (notMem_of_alike hAA' hA) (notMem_of_alike hBB' hB) h.placed
  alike := forall₂_join hAA' (.tables (forall₂_join helements (.mk h.alike) .nil)) hBB'
  length := by simp [h.length]
  path := by simpa using ⟨hk.asInner, h.path⟩
  key := h.key
  own := h.own
  root hroot := by
    have hdot := hroot.key_split
    exact ⟨hroot.change, by simpa [Key.asInner] using hdot⟩
  sheets pre := by
    have hsheets := h.sheets (pre ++ [k.asInner])
    rw [List.append_assoc, List.singleton_append] at hsheets
    refine perm_entrySheets ?_
    rw [itemSheets, itemSheets, elementSheets_concat, elementSheets_concat,
      lines_of_trunk_eq h.placed.trunk]
    refine ((hsheets.cons _).trans (List.Perm.swap _ _ _)).append_left _ |>.trans ?_
    exact List.perm_middle

end Cases

/-- **The header that came last can be taken out of a tree**, by induction over what it did. -/
theorem Placed.uproot (h : Placed p path S T) (hp : p.Sound) (hS : Grove S)
    (hT' : AlikeTrees T T') (hgrove : Grove T') :
    ∃ path' key' own' S', Uprooted p path S T' path' key' own' S' := by
  induction h generalizing T' with
  | @table S hdoubled hname =>
    obtain ⟨e, S', rfl, hSS', he⟩ := forall₂_concat hT'
    obtain ⟨own', rfl, hown⟩ := he.of_header rfl
    rw [hp.own.forest.eq_of_alike hown]
    exact ⟨_, _, _, _, uprooted_table hp hdoubled hname hSS'⟩
  | @raised A B X inner k hdoubled hk hA hB hX =>
    obtain ⟨e, S', rfl, hSS', he⟩ := forall₂_concat hT'
    obtain ⟨A', B', rfl, hAA', hBB'⟩ := forall₂_append_left hSS'
    obtain ⟨X', rfl, hXX'⟩ := he.of_header rfl
    obtain ⟨inner', hinner, hX'⟩ := (hp.planted hS.split.2 hX).alike hXX'
    exact ⟨_, _, _, _, uprooted_raised hp hdoubled hk hA hB hAA' hBB' hinner hX'⟩
  | @array S hdoubled hname =>
    obtain ⟨e, S', rfl, hSS', he⟩ := forall₂_concat hT'
    cases he with
    | tables h =>
      obtain ⟨t, ts, ht, hts, rfl⟩ := List.forall₂_cons_left_iff.1 h
      cases hts
      cases ht with
      | mk hown =>
        rw [hp.own.forest.eq_of_alike hown]
        exact ⟨_, _, _, _, uprooted_array hp hdoubled hname hSS'⟩
  | @element A B k elements hdoubled hk hA hB =>
    obtain ⟨e, A', B', rfl, hAA', he, hBB'⟩ := forall₂_split hT'
    cases he with
    | tables h =>
      obtain ⟨t, elements', rfl, helements, ht⟩ := forall₂_concat h
      cases ht with
      | mk hown =>
        rw [hp.own.forest.eq_of_alike hown]
        exact ⟨_, _, _, _, uprooted_element hp hdoubled hA hB
          (Growth.tables_iff.1 hgrove.split.2).1 hAA' hBB' helements⟩
  | @above S inner k rest hname hinner ih =>
    obtain ⟨e, S', rfl, hSS', he⟩ := forall₂_concat hT'
    cases he with
    | @table _ k' _ _ inner' hname' hkey halike =>
      have hgrowth : Growth k' (.table (.unnamed .aboveHeader) inner') :=
        hgrove.growth (k', _) (by simp)
      obtain ⟨path', key', own', X, h⟩ := ih grove_nil halike hgrowth.table
      obtain rfl : X = [] := by
        cases h.alike
        rfl
      have hk' : IsInnerKey k' := by
        cases hgrowth with
        | above hk => exact hk
        | header _ hkind => cases hkind
      exact ⟨_, _, _, _, h.above hk' hname' hname hSS'⟩
  | @within A B inner changed k k' rest info hk hA hB hinner ih =>
    obtain ⟨e, A', B', rfl, hAA', he, hBB'⟩ := forall₂_split hT'
    cases he with
    | table hname hkey halike =>
      have hgrowth := hgrove.split.2
      obtain ⟨path', key', own', X, h⟩ := ih hS.split.2.table halike hgrowth.table
      exact ⟨_, _, _, _, h.within hname hgrowth.sound hkey hA hB hAA' hBB'⟩
  | @last A B inner changed k k' rest elements info hk hA hB hinner ih =>
    obtain ⟨e, A', B', rfl, hAA', he, hBB'⟩ := forall₂_split hT'
    cases he with
    | tables halike =>
      obtain ⟨t, elements', rfl, helements, ht⟩ := forall₂_concat halike
      cases ht with
      | mk hlast =>
        have hmem {u : TableInfo × Entries} {us : List (TableInfo × Entries)} : u ∈ us ++ [u] := by
          simp
        obtain ⟨path', key', own', X, h⟩ := ih (hS.split.2.element hmem).2 hlast
          (hgrove.split.2.element hmem).2
        exact ⟨_, _, _, _, h.last hgrove.split.2.sound hA hB hAA' hBB' helements⟩

/-! ## All headers -/

/-- A header whose path begins without a dot leaves a tree with no dot before its keys. -/
theorem Placed.rootKeys (h : Placed p path S T) (hS : RootKeys S)
    (hpath : ∀ k ∈ (path ++ [p.key]).head?, k.behindDot = "") : RootKeys T := by
  cases h with
  | table => exact hS.concat (hpath _ rfl)
  | raised =>
    refine RootKeys.concat (fun e he => ?_) (hpath _ rfl)
    rcases List.mem_append.1 he with he | he
    · exact hS.of_append.1 e he
    · exact hS.of_append.2 e (List.mem_cons_of_mem _ he)
  | array => exact hS.concat (hpath _ rfl)
  | element => exact hS.change
  | above => exact hS.concat (hpath _ rfl)
  | within => exact hS.change
  | last => exact hS.change

/-- Sound headers, too, leave a tree with no dot before its keys. -/
theorem RootKeys.placePlots? {ps : List Plot} (hroot : RootKeys S) (hS : Grove S)
    (hps : ∀ p ∈ ps, p.Sound) (h : placePlots? ps S = some T) : RootKeys T := by
  induction ps generalizing S with
  | nil =>
    cases h
    exact hroot
  | cons p rest ih =>
    obtain ⟨S₁, hS₁, hrest⟩ := Option.bind_eq_some_iff.1 h
    have hp := hps p List.mem_cons_self
    have hplaced := (hS.place?_eq_some_iff hp.own).1 hS₁
    exact ih (hplaced.rootKeys hroot hp.root) (hplaced.grove hS hp hp.path)
      (fun q hq => hps q (List.mem_cons_of_mem _ hq)) hrest

/-- What was taken up is as sound as what was put there. -/
theorem Uprooted.sound {path' : List Key} {key' : Key} {own' : Entries}
    (h : Uprooted p p.path S T' path' key' own' S') (hp : p.Sound) (hroot : RootKeys T') :
    Plot.Sound { p with path := path', key := key', own := own' } :=
  ⟨h.path, h.key, (h.root hroot).2, h.length ▸ hp.height, hp.before, hp.after, h.own⟩

/-- **The headers that are written for a tree make it again**, by induction over the headers that
made it, from the last one. -/
theorem regrow {ps : List Plot} (hE : LineForest E) (hps : ∀ p ∈ ps, p.Sound)
    (h : placePlots? ps E = some T) (hT' : AlikeTrees T T') (hroot : RootKeys T') :
    ∃ qs : List Plot, placePlots? qs E = some T' ∧ (∀ q ∈ qs, q.Sound) ∧
      qs.map Plot.position = ps.map Plot.position ∧
      (entrySheets [] T').Perm (qs.map Plot.sheet) := by
  induction ps using List.reverseRecOn generalizing T T' with
  | nil =>
    cases h
    rw [hE.forest.eq_of_alike hT']
    exact ⟨[], rfl, by simp, rfl, by rw [hE.forest.entrySheets]; rfl⟩
  | append_singleton rest p ih =>
    rw [placePlots?_append] at h
    obtain ⟨S, hrest, hlast⟩ := Option.bind_eq_some_iff.1 h
    rw [placePlots?, Option.bind_eq_some_iff] at hlast
    obtain ⟨_, hplace, ⟨⟩⟩ := hlast
    have hrestSound : ∀ q ∈ rest, q.Sound := fun q hq => hps q (List.mem_append_left _ hq)
    have hp := hps p (List.mem_append_right _ List.mem_cons_self)
    have hS := (hE.grove.placePlots? hrestSound hrest).1
    have hplaced := (hS.place?_eq_some_iff hp.own).1 hplace
    obtain ⟨path', key', own', S', hroots⟩ :=
      hplaced.uproot hp hS hT' ((hplaced.grove hS hp hp.path).alike hT')
    obtain ⟨qs, hqs, hsound, hpositions, hperm⟩ :=
      ih hrestSound hrest hroots.alike (hroots.root hroot).1
    refine ⟨qs ++ [{ p with path := path', key := key', own := own' }], ?_, fun q hq => ?_, ?_, ?_⟩
    · rw [placePlots?_append, hqs, Option.bind_some, placePlots?]
      exact Option.bind_eq_some_iff.2 ⟨T', hroots.placed.placeTable? hroots.own, rfl⟩
    · rcases List.mem_append.1 hq with hq | hq
      · exact hsound q hq
      · obtain rfl := List.mem_singleton.1 hq
        exact hroots.sound hp hroot
    · rw [List.map_append, List.map_append, hpositions]
      rfl
    · rw [List.map_append]
      exact (hroots.sheets []).trans ((hperm.cons _).trans (List.perm_append_singleton _ _).symm)

end SessionHost.Toml
