import SessionHost.Proofs.Toml.Groves

/-!
# Keys in a table that stood above headers

A header may come to a table that so far only stood above other headers.  Its own keys stand behind
the tables that are there; but where a key with dots leads on into one of those that stand above
headers themselves, it opens that table, which from then on is written among the lines.

Main definitions:

- `Sown`: a table above headers, and what keys with dots make of it.
- `Planted`: the same for the keys below a header.

Main results:

- Theorem `Planted.of_addLeaves?`: this is what leaves do to a table above headers.
- Theorem `Planted.lineForest`: its lines are a tree that keys with dots make.
- Theorem `Planted.addLeaves?_lines`: its lines make it again.
-/

namespace SessionHost.Toml

variable {I P X X' : Entries} {k : Key} {item : Item} {n : Nat}

/-- A table above headers, entry by entry, and what keys with dots make of it. -/
inductive Sown : Nat → Entries → Entries → Prop where
  /-- New keys stand behind all others. -/
  | fresh {n : Nat} {F : Entries}
      (h : Forest IsInnerKey (IsLeafKey IsLead IsBlank) IsLineText n F) : Sown n [] F
  | kept {n : Nat} {k : Key} {item : Item} {I X : Entries} (hk : Growth k item)
      (htrunk : itemTrunk k item = []) (h : Sown n I X) : Sown n ((k, item) :: I) ((k, item) :: X)
  /-- A table through which keys with dots lead. -/
  | opened {n : Nat} {k : Key} {inner own I X : Entries} (hk : IsInnerKey k) (hd : Distinct own)
      (hne : leaves [] own ≠ []) (hown : Sown n inner own) (h : Sown (n + 1) I X) :
      Sown (n + 1) ((k, .table (.unnamed .aboveHeader) inner) :: I)
        ((k, .table (.unnamed .dotted) own) :: X)

/-- A table without lines to which nothing has been added. -/
theorem Sown.refl (hI : Grove I) (htrunk : trunk I = []) (n : Nat) : Sown n I I := by
  obtain ⟨-, hgrowth⟩ := hI
  induction I with
  | nil => exact .fresh forest_nil
  | cons e rest ih =>
    obtain ⟨hitem, hrest⟩ := List.append_eq_nil_iff.1 htrunk
    exact .kept (hgrowth e List.mem_cons_self) hitem
      (ih hrest fun e he => hgrowth e (List.mem_cons_of_mem _ he))

/-- Keys with dots lose no name of a table above headers. -/
theorem Sown.names_subset (h : Sown n I X) : ∀ m ∈ names I, m ∈ names X := by
  induction h with
  | fresh => simp
  | kept _ _ _ ih => simpa using fun m hm => .inr (ih m hm)
  | opened _ _ _ _ _ _ ih => simpa using fun m hm => .inr (ih m hm)

/-- The first name is none of the others. -/
theorem distinct_cons {e : Key × Item} (h : Distinct (e :: X)) :
    e.1.name ∉ names X ∧ Distinct X := List.nodup_cons.1 h

/-- A new key stands behind all others. -/
theorem Sown.concat (h : Sown n I X)
    (hk : Branch IsInnerKey (IsLeafKey IsLead IsBlank) IsLineText n k item)
    (hnew : k.name ∉ names X) : Sown n I (X ++ [(k, item)]) := by
  induction h with
  | fresh h => exact .fresh (h.concat hnew hk)
  | kept hgrowth htrunk _ ih =>
    exact .kept hgrowth htrunk (ih hk fun hmem => hnew (List.mem_cons_of_mem _ hmem))
  | opened hk' hd hne hown _ _ ih =>
    exact .opened hk' hd hne hown (ih hk fun hmem => hnew (List.mem_cons_of_mem _ hmem))

/-- A value below another name goes past an entry. -/
theorem addMember?_cons_of_ne {path : List Key} {key : Key} {e : Key × Item}
    (hne : ∀ k ∈ (path ++ [key]).head?, k.name ≠ e.1.name)
    (h : addMember? path key item (e :: X) = some X') :
    ∃ X₁, X' = e :: X₁ ∧ addMember? path key item X = some X₁ := by
  have happend : addMember? path key item ([e] ++ X) =
      (addMember? path key item X).map ([e] ++ ·) :=
    addMember?_append (fun k hk => by simpa using hne k hk) X
  rw [List.singleton_append, h] at happend
  obtain ⟨X₁, hX₁, rfl⟩ := Option.map_eq_some_iff.1 happend.symm
  exact ⟨X₁, rfl, hX₁⟩

/-- A value below the name of a table goes into that table. -/
theorem addMember?_cons_table {rest : List Key} {key k' : Key} {info : TableInfo} {J : Entries}
    (hname : k'.name = k.name) (hX : k'.name ∉ names X)
    (h : addMember? (k :: rest) key item ((k', .table info J) :: X) = some X') :
    info.kind ≠ .header ∧ ∃ J', addMember? rest key item J = some J' ∧
      X' = (k', .table { info with kind := .dotted } J') :: X := by
  rw [addMember?, ← hname, find?_cons_self] at h
  simp only at h
  split at h
  · cases h
  · next hkind =>
    obtain ⟨J', hJ', rfl⟩ := Option.map_eq_some_iff.1 h
    refine ⟨hkind, J', hJ', ?_⟩
    rw [replace_cons_self, replace_of_notMem hX]

/-- One more value, by induction over its path and over the entries. -/
theorem Sown.addMember? {path : List Key} {key : Key} {text : String} {v : Value}
    (h : Sown n I X) (hX : Distinct X) (hpath : ∀ k ∈ path, IsInnerKey k)
    (hkey : IsLeafKey IsLead IsBlank key) (hv : IsLineText text v) (hn : path.length < n)
    (hadd : Toml.addMember? path key (.value text v) X = some X') : Sown n I X' := by
  induction path generalizing n I X X' with
  | nil =>
    obtain ⟨m, rfl⟩ : ∃ m, n = m + 1 := ⟨n - 1, by simp at hn; omega⟩
    rw [Toml.addMember?] at hadd
    split at hadd
    · cases hadd
    · next hnone =>
      cases hadd
      exact h.concat (.leaf hkey hv) (find?_eq_none_iff.1 (by simpa using hnone))
  | cons k rest ih =>
    have hrest : ∀ k ∈ rest, IsInnerKey k := fun k' hk' => hpath k' (List.mem_cons_of_mem _ hk')
    induction h generalizing X' with
    | fresh h => exact .fresh (h.addMember? hpath hkey hv hn hadd)
    | @kept n k' item I X hgrowth htrunk h ihX =>
      obtain ⟨hnew, hdX⟩ := distinct_cons hX
      by_cases hname : k'.name = k.name
      · cases hgrowth with
        | value => cases htrunk
        | dotted => rw [itemTrunk_dotted] at htrunk; cases htrunk
        | header _ hkind => exact absurd hkind (addMember?_cons_table hname hnew hadd).1
        | @above _ inner hk hnil hd hin =>
          obtain ⟨m, rfl⟩ : ∃ m, n = m + 1 := ⟨n - 1, by simp at hn; omega⟩
          obtain ⟨-, inner', hinner, rfl⟩ := addMember?_cons_table hname hnew hadd
          exact .opened hk (distinct_addMember? hd hinner) (leaves_addMember?_ne_nil hinner)
            (ih (Sown.refl ⟨hd, hin⟩ hnil m) hd hrest (by simpa using hn) hinner) h
        | tables =>
          rw [Toml.addMember?, ← hname, find?_cons_self] at hadd
          cases hadd
      · obtain ⟨X₁, rfl, hX₁⟩ := addMember?_cons_of_ne (by simpa using Ne.symm hname) hadd
        exact .kept hgrowth htrunk (ihX hdX hn hX₁)
    | @opened n k' inner own I X hk hd hne hown h ihown ihX =>
      obtain ⟨hnew, hdX⟩ := distinct_cons hX
      by_cases hname : k'.name = k.name
      · obtain ⟨-, own', hown', rfl⟩ := addMember?_cons_table hname hnew hadd
        exact .opened hk (distinct_addMember? hd hown') (leaves_addMember?_ne_nil hown')
          (ih hown hd hrest (by simpa using hn) hown') h
      · obtain ⟨X₁, rfl, hX₁⟩ := addMember?_cons_of_ne (by simpa using Ne.symm hname) hadd
        exact .opened hk hd hne hown (ihX hdX hn hX₁)

/-- Each entry of a sown table could stand in a document. -/
theorem Sown.growth (h : Sown n I X) : ∀ e ∈ X, Growth e.1 e.2 := by
  induction h with
  | fresh h => exact fun e he => (h.branches e he).growth
  | kept hgrowth _ _ ih => exact List.forall_mem_cons.2 ⟨hgrowth, ih⟩
  | opened hk hd _ _ _ ihown ih => exact List.forall_mem_cons.2 ⟨.dotted hk hd ihown, ih⟩

/-- Different names are different in the trunk. -/
theorem Distinct.trunk (hX : Distinct X) : Distinct (trunk X) :=
  List.Nodup.sublist (names_trunk_sublist X) hX

/-- What is written among the lines are trees that keys with dots make. -/
theorem Sown.branches (h : Sown n I X) : ∀ e ∈ trunk X,
    Branch IsInnerKey (IsLeafKey IsLead IsBlank) IsLineText n e.1 e.2 := by
  induction h with
  | fresh h => rw [h.trunk]; exact h.branches
  | kept _ htrunk _ ih => rwa [trunk, htrunk]
  | @opened n k inner own I X hk hd hne _ _ ihown ih =>
    rw [trunk, itemTrunk_dotted]
    refine List.forall_mem_cons.2 ⟨.dotted hk ?_ hd.trunk ihown, ih⟩
    exact fun hnil => hne (leaves_of_trunk_eq_nil hnil [])

theorem notMem_concat (hk : k.name ∉ names X) (hP : ∀ m ∈ names X, m ∉ names P) (item : Item) :
    ∀ m ∈ names X, m ∉ names (P ++ [(k, item)]) := by
  intro m hm hmem
  rw [names_append, List.mem_append] at hmem
  rcases hmem with hmem | hmem
  · exact hP m hm hmem
  · obtain rfl : m = k.name := by simpa using hmem
    exact hk hm

theorem notMem_cons {e : Key × Item} (hk : k.name ∉ names X) (he : e ∈ X)
    (hout : e.1.name ∉ names I) (other : Item) : e.1.name ∉ names ((k, other) :: I) := by
  rw [names_cons, List.mem_cons, not_or]
  exact ⟨fun heq => hk (heq ▸ List.mem_map_of_mem he), hout⟩

/-- The lines make a table again out of what was there before, under whatever keys they name the
tables that are there. -/
theorem Sown.addLeaves? (h : Sown n I X) (hX : Distinct X) (r : Key → Key)
    (hr : ∀ k, (r k).name = k.name) (hnew : ∀ e ∈ X, e.1.name ∉ names I → r e.1 = e.1)
    (hP : ∀ m ∈ names X, m ∉ names P) :
    Toml.addLeaves? (leaves [] ((trunk X).map fun e => (r e.1, e.2))) (P ++ I) =
      some (P ++ X) := by
  induction h generalizing r P with
  | @fresh n F h =>
    have hsame : (F.map fun e => (r e.1, e.2)) = F := by
      refine (List.map_congr_left fun e he => ?_).trans (List.map_id' F)
      rw [hnew e he List.not_mem_nil]
    rw [h.trunk, hsame, List.append_nil]
    exact h.addLeaves? hP
  | @kept n k item I X _ htrunk _ ih =>
    obtain ⟨hk, hdX⟩ := distinct_cons hX
    have hrest := ih hdX r hr
      (fun e he hout => hnew e (List.mem_cons_of_mem _ he) (notMem_cons hk he hout item))
      (notMem_concat hk (fun m hm => hP m (List.mem_cons_of_mem _ hm)) item)
    rw [trunk, htrunk]
    simpa using hrest
  | @opened n k inner own I X _ hd hne hown h ihown ih =>
    obtain ⟨hk, hdX⟩ := distinct_cons hX
    have hinner : Toml.addLeaves? (leaves [] (trunk own)) inner = some own := by
      have := ihown hd id (fun _ => rfl) (fun _ _ _ => rfl) (P := []) (by simp)
      simpa using this
    have hfirst : Toml.addLeaves? (itemLeaves [] (r k) (.table (.unnamed .dotted) (trunk own)))
        (P ++ (k, .table (.unnamed .aboveHeader) inner) :: I) =
          some (P ++ (k, .table (.unnamed .dotted) own) :: I) := by
      rw [itemLeaves_dotted]
      refine addLeaves?_below_above (by rwa [leaves_trunk]) (hr k) (hP _ List.mem_cons_self) ?_
        hinner
      exact fun hmem => hk (h.names_subset _ hmem)
    have hrest := ih hdX r hr
      (fun e he hout => hnew e (List.mem_cons_of_mem _ he) (notMem_cons hk he hout _))
      (notMem_concat hk (fun m hm => hP m (List.mem_cons_of_mem _ hm))
        (.table (.unnamed .dotted) own))
    rw [trunk, itemTrunk_dotted, List.singleton_append, List.map_cons, leaves, addLeaves?_append,
      hfirst]
    simpa using hrest

/-! ## The keys below a header -/

/-- A table above headers, and what the keys below its own header make of it. -/
structure Planted (I X : Entries) : Prop where
  sown : Sown maxKeyParts I X
  distinct : Distinct X
  root : ∀ k ∈ X.map (·.1), k.name ∉ names I → k.behindDot = ""

/-- Nothing is planted in a tree that has no lines of its own. -/
theorem Planted.refl (hI : Grove I) (htrunk : trunk I = []) : Planted I I where
  sown := .refl hI htrunk _
  distinct := hI.distinct
  root _ hk hnew := absurd (names_eq_keys I ▸ List.mem_map_of_mem hk) hnew

/-- A leaf more is planted behind the others. -/
theorem Planted.addLeaf? {l : Leaf} (h : Planted I X) (hl : LineLeaf l)
    (hadd : Toml.addLeaf? l X = some X') : Planted I X' where
  sown := h.sown.addMember? h.distinct hl.1.path hl.1.key hl.1.text hl.1.height hadd
  distinct := distinct_addMember? h.distinct hadd
  root k hk hnew := by
    rcases keys_addMember? hadd with hkeys | ⟨k', hk', -, hkeys⟩ <;> rw [hkeys] at hk
    · exact h.root k hk hnew
    · rcases List.mem_append.1 hk with hold | hlast
      · exact h.root k hold hnew
      · obtain rfl := List.mem_singleton.1 hlast
        exact hl.2 k hk'

/-- Leaves, one by one, in a table that stood above headers. -/
theorem Planted.of_addLeaves? {ls : List Leaf} (hI : Grove I) (htrunk : trunk I = [])
    (hls : ∀ l ∈ ls, LineLeaf l) (h : addLeaves? ls I = some X) : Planted I X := by
  suffices hgo : ∀ Y, Planted I Y → addLeaves? ls Y = some X → Planted I X from
    hgo I (.refl hI htrunk) h
  clear h
  intro Y hY h
  induction ls generalizing Y with
  | nil =>
    cases h
    exact hY
  | cons l rest ih =>
    obtain ⟨Y₁, hl, hrest⟩ := Option.bind_eq_some_iff.1 h
    obtain ⟨hleaf, hleaves⟩ := List.forall_mem_cons.1 hls
    exact ih hleaves Y₁ (hY.addLeaf? hleaf hl) hrest

/-- A tree with lines planted in it could stand in a document. -/
theorem Planted.grove (h : Planted I X) : Grove X := ⟨h.distinct, h.sown.growth⟩

/-- A tree that keys with dots have made is one without the dot before it. -/
theorem Branch.rooted (h : Branch IsInnerKey (IsLeafKey IsLead IsBlank) IsLineText n k item) :
    Branch IsInnerKey (IsLeafKey IsLead IsBlank) IsLineText n k.rooted item := by
  have hblank : ∀ c ∈ "".toList, isBlankChar c = true := by simp
  cases h with
  | leaf hk hv =>
    exact .leaf ⟨⟨hk.sound.text, hk.sound.beforeDot, hblank⟩, hk.beforeDot, hk.around⟩ hv
  | dotted hk hne hd h =>
    exact .dotted ⟨⟨hk.sound.text, hk.sound.beforeDot, hblank⟩, hk.around⟩ hne hd h

/-- **The lines of such a table are a tree that keys with dots make.** -/
theorem Planted.lineForest (h : Planted I X) : LineForest (lines X) where
  forest := by
    refine ⟨?_, fun e he => ?_⟩
    · rw [Distinct, lines, names_rooted]
      exact h.distinct.trunk
    · obtain ⟨e', he', rfl⟩ := List.mem_map.1 he
      exact (h.sown.branches e' he').rooted
  root := rootKeys_rooted _

/-- **The lines of such a table make it again** out of the table above headers. -/
theorem Planted.addLeaves?_lines (h : Planted I X) :
    addLeaves? (leaves [] (lines X)) I = some X := by
  refine h.sown.addLeaves? (P := []) h.distinct Key.rooted (fun _ => rfl) (fun e he hnew => ?_)
    (by simp)
  have hdot := h.root e.1 (List.mem_map_of_mem he) hnew
  obtain ⟨⟨name, raw, around, beforeDot, behindDot⟩, item⟩ := e
  cases hdot
  rfl

end SessionHost.Toml
