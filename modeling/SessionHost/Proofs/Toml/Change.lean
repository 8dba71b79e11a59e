import SessionHost.Proofs.Toml.Rendering
import SessionHost.Proofs.Toml.Strings

/-!
# A string set at the top of a document

The string stands where the key was, or behind all other keys; what the headers under that key had
made is gone.  The document that is written then is the one that the other headers make of the
lines with the string among them, so that it is read as that document.

Main definitions:

- `Plot.top`: the first name of a header's path.
- `Key.settled`: the key as it is written in its own line.
- `Slot`: the place of a string in a document.

Main results:

- Theorem `placePlots?_remove`: headers under other names do not see a name.
- Theorem `Grown.set`: the document that is written after the change.
-/

namespace SessionHost.Toml

variable {A B E F S T X : Entries} {name : String}

/-! ## Without a name -/

/-- Removing a name does not hide the others. -/
theorem find?_remove {n : String} (h : n ≠ name) : find? n (remove name E) = find? n E := by
  rw [find?, find?, remove, List.find?_filter]
  refine congrArg _ (congrArg (List.find? · E) (funext fun e => ?_))
  by_cases he : e.1.name = n
  · simp [he, h]
  · simp [he]

/-- Two places in a table are changed in either order. -/
theorem remove_replace (n : String) (item : Item) (E : Entries) :
    remove name (replace n item E) = replace n item (remove name E) := by
  rw [remove, replace, List.filter_map, remove, replace]
  refine congrArg _ (List.filter_congr fun e _ => ?_)
  simp only [Function.comp]
  split <;> rfl

/-- What is removed need not be replaced before. -/
theorem remove_replace_self (item : Item) (E : Entries) :
    remove name (replace name item E) = remove name E := by
  rw [remove_replace]
  refine replace_of_notMem fun hmem => ?_
  obtain ⟨e, he, hname⟩ := List.mem_map.1 hmem
  simpa [hname] using (List.mem_filter.1 he).2

/-- Names are removed in either order. -/
theorem remove_comm (n : String) (E : Entries) :
    remove name (remove n E) = remove n (remove name E) := by
  rw [remove, remove, remove, remove, List.filter_filter, List.filter_filter]
  simp only [Bool.and_comm]

theorem remove_concat {k : Key} {item : Item} (h : k.name ≠ name) (E : Entries) :
    remove name (E ++ [(k, item)]) = remove name E ++ [(k, item)] := by
  rw [remove_append, remove_of_notMem (E := [(k, item)]) (by simpa using h.symm)]

theorem remove_concat_self (k : Key) (item : Item) (E : Entries) :
    remove k.name (E ++ [(k, item)]) = remove k.name E := by
  rw [remove_append, remove_cons_self]
  exact List.append_nil _

/-- A name is removed once. -/
theorem remove_remove (E : Entries) : remove name (remove name E) = remove name E := by
  rw [remove, remove, List.filter_filter]
  simp only [Bool.and_self]

/-! ## Headers under other names -/

/-- The first name of a header's path. -/
def Plot.top (p : Plot) : String := (p.path.headD p.key).name

section Place

variable {doubled : Bool} {path : List Key} {key : Key} {info : TableInfo}
  {body : Entries → Option Entries}

/-- A header under another name does not see a name. -/
theorem placeTable?_remove (h : (path.headD key).name ≠ name) :
    placeTable? doubled path key info body (remove name S) =
      (placeTable? doubled path key info body S).map (remove name) := by
  have hmap (x : Option Entries) {g g' : Entries → Entries}
      (hg : ∀ X, g X = remove name (g' X)) : x.map g = (x.map g').map (remove name) := by
    rw [Option.map_map]
    exact congrArg (Option.map · x) (funext hg)
  cases path with
  | nil =>
    have hkey : key.name ≠ name := h
    unfold placeTable?
    rw [find?_remove hkey]
    split
    · exact hmap _ fun X => (remove_concat hkey S).symm
    · split
      · refine hmap _ fun X => ?_
        rw [remove_concat hkey, remove_comm]
      · rfl
    · exact hmap _ fun X => (remove_concat hkey S).symm
    · exact hmap _ fun X => (remove_replace _ _ S).symm
    · rfl
  | cons k rest =>
    have hk : k.name ≠ name := h
    rw [placeTable?, placeTable?, find?_remove hk]
    split
    · exact hmap _ fun X => (remove_concat hk S).symm
    · rfl
    · split
      · exact hmap _ fun X => (remove_replace _ _ S).symm
      · rfl
    · exact hmap _ fun X => (remove_replace _ _ S).symm

/-- A header under a name changes nothing else. -/
theorem remove_placeTable? (h : (path.headD key).name = name)
    (hT : placeTable? doubled path key info body S = some T) : remove name T = remove name S := by
  cases path with
  | nil =>
    obtain rfl : key.name = name := h
    unfold placeTable? at hT
    split at hT
    · obtain ⟨X, -, rfl⟩ := Option.map_eq_some_iff.1 hT
      exact remove_concat_self _ _ _
    · split at hT
      · obtain ⟨X, -, rfl⟩ := Option.map_eq_some_iff.1 hT
        rw [remove_concat_self, remove_remove]
      · cases hT
    · obtain ⟨X, -, rfl⟩ := Option.map_eq_some_iff.1 hT
      exact remove_concat_self _ _ _
    · obtain ⟨X, -, rfl⟩ := Option.map_eq_some_iff.1 hT
      exact remove_replace_self _ _
    · cases hT
  | cons k rest =>
    obtain rfl : k.name = name := h
    rw [placeTable?] at hT
    split at hT
    · obtain ⟨X, -, rfl⟩ := Option.map_eq_some_iff.1 hT
      exact remove_concat_self _ _ _
    · cases hT
    · split at hT
      · obtain ⟨X, -, rfl⟩ := Option.map_eq_some_iff.1 hT
        exact remove_replace_self _ _
      · cases hT
    · obtain ⟨X, -, rfl⟩ := Option.map_eq_some_iff.1 hT
      exact remove_replace_self _ _

end Place

/-- The headers under other names than a given one. -/
def otherPlots (name : String) (ps : List Plot) : List Plot := ps.filter fun p => p.top != name

/-- **Headers under other names do not see a name**: without what is under it, they make the same
tree without it. -/
theorem placePlots?_remove {ps : List Plot} (h : placePlots? ps S = some T) :
    placePlots? (otherPlots name ps) (remove name S) = some (remove name T) := by
  induction ps generalizing S with
  | nil =>
    cases h
    rfl
  | cons p rest ih =>
    obtain ⟨S₁, hS₁, hrest⟩ := Option.bind_eq_some_iff.1 h
    have hmore := ih hrest
    by_cases htop : p.top = name
    · rw [otherPlots, List.filter_cons_of_neg (by simpa using htop)]
      rwa [remove_placeTable? htop hS₁] at hmore
    · rw [otherPlots, List.filter_cons_of_pos (by simpa using htop), placePlots?,
        show p.place? (remove name S) = some (remove name S₁) from
          (placeTable?_remove htop).trans (congrArg (Option.map _) hS₁)]
      exact hmore

/-- Headers under other names make the same tree beside whatever is under a name. -/
theorem exists_placePlots? {ps : List Plot} (hps : ∀ p ∈ ps, p.top ≠ name)
    (h : placePlots? ps (remove name S) = some X) :
    ∃ T, placePlots? ps S = some T ∧ remove name T = X := by
  induction ps generalizing S with
  | nil =>
    cases h
    exact ⟨S, rfl, rfl⟩
  | cons p rest ih =>
    obtain ⟨X₁, hX₁, hrest⟩ := Option.bind_eq_some_iff.1 h
    rw [Plot.place?_eq, placeTable?_remove (hps p List.mem_cons_self)] at hX₁
    obtain ⟨S₁, hS₁, rfl⟩ := Option.map_eq_some_iff.1 hX₁
    obtain ⟨T, hT, hX⟩ := ih (fun q hq => hps q (List.mem_cons_of_mem _ hq)) hrest
    refine ⟨T, ?_, hX⟩
    rw [placePlots?, show p.place? S = some S₁ from hS₁]
    exact hT

/-! ## The string and its key -/

/-- A written string begins with a quote. -/
theorem writeString_start (s : String) :
    ∃ quote more, writeString s = quote :: more ∧ (quote = '"' ∨ quote = '\'') := by
  unfold writeString
  simp only
  split
  · exact ⟨_, _, rfl, .inl rfl⟩
  · exact ⟨_, _, rfl, .inr rfl⟩
  · exact ⟨_, _, rfl, .inl rfl⟩
  · exact ⟨_, _, rfl, .inr rfl⟩

/-- A written string is read as the string, and kept as it is written. -/
theorem rereads_writeString (s : String) : Rereads readValue? (writeString s) (.string s) := by
  obtain ⟨quote, more, hstart, hquote⟩ := writeString_start s
  refine ⟨⟨quote, more, hstart, ?_⟩, fun rest hrest => ?_⟩
  · rcases hquote with rfl | rfl <;> decide
  · have hread := readString?_writeString s hrest.quoteFree.1 hrest.quoteFree.2
    rw [hstart, List.cons_append] at hread ⊢
    rw [readValue?, readValueWithin?_string maxNesting hquote, hread, Option.map_some,
      ← List.cons_append, List.length_append, Nat.add_sub_cancel, List.take_left' rfl]

/-- A written string behind a blank is the text of its value. -/
theorem isLineText_string (s : String) :
    IsLineText (" " ++ String.ofList (writeString s)) (.string s) := by
  refine ⟨[' '], writeString s, [], ?_, ?_, lineTail_nil, rereads_writeString s⟩
  · simp
  · intro c hc
    obtain rfl := List.mem_singleton.1 hc
    decide

/-- A key as it stands in its own line, with one space behind it if nothing is known of its
surroundings. -/
def Key.settled (k : Key) : Key := k.asLeaf (k.around.getD ("", " "))

/-- White space may stand before a line. -/
theorem isLead_of_isBlank {cs : List Char} (h : IsBlank cs) : IsLead cs := ⟨[], cs, rfl, .nil, h⟩

/-- A key that is settled may begin a line. -/
theorem Key.Sound.settled {k : Key} (h : k.Sound)
    (haround : ∀ lead trail, k.around = some (lead, trail) →
      IsLead lead.toList ∧ IsBlank trail.toList) : IsLeafKey IsLead IsBlank k.settled := by
  refine ⟨⟨h.text, by simp [Key.settled, Key.asLeaf], h.behindDot⟩, rfl, _, _, rfl, ?_⟩
  cases hk : k.around with
  | none => exact ⟨isLead_of_isBlank (by simp [IsBlank]), by simp [IsBlank, isBlankChar]⟩
  | some around => exact haround _ _ hk

/-- The key of what has grown, settled, may begin a line. -/
theorem Growth.settled {k : Key} {item : Item} (h : Growth k item) :
    IsLeafKey IsLead IsBlank k.settled := by
  have hnone (hk : IsInnerKey k) : IsLeafKey IsLead IsBlank k.settled :=
    hk.sound.settled fun lead trail heq => by rw [hk.around] at heq; cases heq
  have hsome {P : List Char → Prop} (hP : ∀ cs, P cs → IsLead cs) (hk : IsLeafKey P IsBlank k) :
      IsLeafKey IsLead IsBlank k.settled := by
    obtain ⟨lead, trail, haround, hlead, htrail⟩ := hk.around
    refine hk.sound.settled fun lead' trail' heq => ?_
    rw [haround] at heq
    cases heq
    exact ⟨hP _ hlead, htrail⟩
  cases h with
  | value hk => exact hsome (fun _ h => h) hk
  | dotted hk => exact hnone hk
  | above hk => exact hnone hk
  | header hk => exact hsome (fun _ h => isLead_of_isBlank h) hk
  | tables hk => exact hsome (fun _ h => isLead_of_isBlank h) hk

/-- Settling a key does not change the line that it begins. -/
theorem memberText_settled (k : Key) (text : String) :
    memberText ([k.settled], text) = memberText ([k], text) := rfl

/-! ## The place of a string -/

/-- The place of a string under a name in a document. -/
structure Slot (name : String) (d : Document) (A : Entries) (k : Key) (B : Entries) : Prop where
  set : ∀ s, d.set name s = ⟨A ++ (k, stringItem s) :: B, d.trailing⟩
  key : k.name = name
  left : name ∉ names A
  right : name ∉ names B
  rest : remove name d.entries = A ++ B
  settled : IsLeafKey IsLead IsBlank k.settled
  root : k.behindDot = ""

section Slot

variable {d : Document} {ps : List Plot} {k : Key}

/-- A document that was read has a place for every name that can be written. -/
theorem Grown.exists_slot (h : Grown E ps d) (hname : KeyText name.toList name) :
    ∃ A k B, Slot name d A k B := by
  cases hfind : find? name d.entries with
  | some item =>
    obtain ⟨A, k, B, hsplit, rfl, hA, hB⟩ := exists_split hfind h.grove.distinct
    have hgrove := h.grove
    have hroot := h.root
    rw [hsplit] at hgrove hroot
    refine ⟨A, k, B, fun s => ?_, rfl, hA, hB, ?_, hgrove.split.2.settled, hroot.key_split⟩
    · rw [Document.set, hfind, if_pos Option.isSome_some, hsplit, replace_split k _ hA hB]
    · rw [hsplit, remove_split k hA hB]
  | none =>
    have hnone := find?_eq_none_iff.1 hfind
    refine ⟨d.entries, Key.new name, [], fun s => ?_, rfl, hnone, by simp, ?_, ?_, rfl⟩
    · rw [Document.set, hfind, if_neg (by simp)]
    · rw [remove_of_notMem hnone, List.append_nil]
    · exact Key.Sound.settled ⟨hname, by simp [Key.new], by simp [Key.new]⟩
        fun lead trail heq => nomatch heq

/-- The lines of a document with a string. -/
def slotLines (A : Entries) (k : Key) (B : Entries) (s : String) : Entries :=
  trunk A ++ (k.settled, stringItem s) :: trunk B

/-- The own lines with a new value are those of the place for it. -/
theorem ownMembers_slotLines (A : Entries) (k : Key) (B : Entries) (s : String) :
    memberLines (ownMembers [] (A ++ (k, stringItem s) :: B)) =
      memberLines (ownMembers [] (slotLines A k B s)) := by
  have hsplit (X Y : Entries) (k : Key) : ownMembers [] (X ++ (k, stringItem s) :: Y) =
      ownMembers [] X ++ ([k], " " ++ String.ofList (writeString s)) :: ownMembers [] Y := by
    rw [ownMembers_eq, leaves_append, List.map_append, ← ownMembers_eq, ← ownMembers_eq, ownMembers]
    rfl
  have htrunk (X : Entries) : ownMembers [] (trunk X) = ownMembers [] X := by
    rw [ownMembers_eq, ownMembers_eq, leaves_trunk]
  rw [slotLines, hsplit, hsplit, htrunk, htrunk]
  simp only [memberLines, List.map_append, List.map_cons, memberText_settled]

/-- The sections of two halves stand one behind the other. -/
theorem entryChunks_append (path : List Key) (A B : Entries) :
    entryChunks path (A ++ B) = entryChunks path A ++ entryChunks path B := by
  induction A with
  | nil => rfl
  | cons e rest ih => rw [List.cons_append, entryChunks, entryChunks, ih, List.append_assoc]

/-- A value has no tables below it. -/
theorem sectionText_value (A B : Entries) (k : Key) (text : String) (v : Value) :
    sectionText (A ++ (k, .value text v) :: B) = sectionText (A ++ B) := by
  rw [sectionText, sectionText, entryChunks_append, entryChunks_append, entryChunks, itemChunks]
  rfl

/-- What is written with a string in its place. -/
theorem Slot.render (h : Slot name d A k B) (s : String) : (d.set name s).render =
    memberLines (ownMembers [] (slotLines A k B s)) ++ sectionText (A ++ B) ++ d.trailing := by
  rw [h.set, render_eq, ownMembers_slotLines]
  exact congrArg (_ ++ · ++ _) (sectionText_value A B k _ _)

/-- The name of the place is nowhere else among the lines. -/
theorem Slot.notMem_trunk (h : Slot name d A k B) :
    k.settled.name ∉ names (trunk A) ∧ k.settled.name ∉ names (trunk B) := by
  have hkey : k.settled.name = name := h.key
  rw [hkey]
  exact ⟨fun hn => h.left ((names_trunk_sublist A).subset hn),
    fun hn => h.right ((names_trunk_sublist B).subset hn)⟩

/-- The lines of a document without a name are those without the string. -/
theorem Slot.remove_lines (h : Slot name d A k B) (s : String) :
    remove name (slotLines A k B s) = trunk A ++ trunk B := by
  obtain ⟨hA, hB⟩ := h.notMem_trunk
  have : remove k.settled.name (slotLines A k B s) = trunk A ++ trunk B :=
    remove_split k.settled hA hB
  rwa [show k.settled.name = name from h.key] at this

/-- A further change only changes the value at the place. -/
theorem Slot.replace_lines (h : Slot name d A k B) (s s' : String) :
    replace name (stringItem s') (slotLines A k B s) = slotLines A k B s' := by
  obtain ⟨hA, hB⟩ := h.notMem_trunk
  have : replace k.settled.name (stringItem s') (slotLines A k B s) = slotLines A k B s' :=
    replace_split k.settled (stringItem s) hA hB
  rwa [show k.settled.name = name from h.key] at this

/-- A line less keeps the tree of lines one. -/
theorem LineForest.remove (hE : LineForest E) (name : String) : LineForest (remove name E) :=
  ⟨⟨hE.forest.distinct.sublist (List.filter_sublist.map _),
      fun e he => hE.forest.branches e (List.mem_filter.1 he).1⟩,
    fun e he => hE.root e (List.mem_filter.1 he).1⟩

/-- A line more, of a new name, keeps the tree of lines one. -/
theorem LineForest.insert {text : String} {v : Value} (h : LineForest (A ++ B))
    (hA : k.name ∉ names A) (hB : k.name ∉ names B) (hk : IsLeafKey IsLead IsBlank k)
    (hv : IsLineText text v) (hroot : k.behindDot = "") :
    LineForest (A ++ (k, .value text v) :: B) := by
  have hmem {e : Key × Item} (he : e ∈ A ++ (k, .value text v) :: B) :
      e ∈ A ++ B ∨ e = (k, .value text v) := by
    rcases List.mem_append.1 he with he | he
    · exact .inl (List.mem_append_left _ he)
    · rcases List.mem_cons.1 he with rfl | he
      · exact .inr rfl
      · exact .inl (List.mem_append_right _ he)
  refine ⟨⟨?_, fun e he => ?_⟩, fun e he => ?_⟩
  · have hd := h.forest.distinct
    rw [Distinct, names_append] at hd
    rw [Distinct, names_append, names_cons, List.perm_middle.nodup_iff, List.nodup_cons,
      List.mem_append]
    exact ⟨fun hn => hn.elim hA hB, hd⟩
  · rcases hmem he with he | rfl
    · exact h.forest.branches e he
    · exact .leaf hk hv
  · rcases hmem he with he | rfl
    · exact h.root e he
    · exact hroot

/-- The document that is written with a string in its place is what the headers under other names
make of the lines with the string. -/
theorem Grown.set (h : Grown E ps d) (hslot : Slot name d A k B) (s : String) :
    ∃ d', Grown (slotLines A k B s) (otherPlots name ps) d' ∧
      Toml.remove name d'.entries = A ++ B ∧ d'.trailing = d.trailing := by
  have hplaced : placePlots? (otherPlots name ps) (Toml.remove name E) = some (A ++ B) :=
    hslot.rest ▸ placePlots?_remove h.placed
  have hother : ∀ p ∈ otherPlots name ps, p.Sound ∧ p.top ≠ name := by
    intro p hp
    obtain ⟨hp, htop⟩ := List.mem_filter.1 hp
    exact ⟨h.plots p hp, by simpa using htop⟩
  have hlines := h.lines.remove name
  have htrunk : Toml.trunk A ++ Toml.trunk B = Toml.remove name E := by
    rw [← trunk_append, (hlines.grove.placePlots? (fun p hp => (hother p hp).1) hplaced).2,
      hlines.forest.trunk]
  obtain ⟨hA, hB⟩ := hslot.notMem_trunk
  have hforest : LineForest (slotLines A k B s) :=
    LineForest.insert (htrunk ▸ hlines) hA hB hslot.settled (isLineText_string s) hslot.root
  have hsame : Toml.remove name (slotLines A k B s) = Toml.remove name E := by
    rw [hslot.remove_lines, htrunk]
  obtain ⟨T, hT, hrest⟩ := exists_placePlots? (fun p hp => (hother p hp).2) (hsame ▸ hplaced)
  refine ⟨⟨T, d.trailing⟩, ⟨hforest, fun p hp => (hother p hp).1, ?_, hT, h.trailing⟩, hrest, rfl⟩
  exact h.order.sublist (List.filter_sublist.map _)

/-- A document with a string among its lines has that string in its place. -/
theorem Grown.slot {d' : Document} {s : String} (h : Grown (slotLines A k B s) ps d')
    (hslot : Slot name d A k B) :
    ∃ A' B', Slot name d' A' k.settled B' ∧ d'.entries = A' ++ (k.settled, stringItem s) :: B' ∧
      ∀ s', slotLines A' k.settled B' s' = slotLines A k B s' := by
  have hkey : k.settled.name = name := hslot.key
  have hmem : (k.settled, stringItem s) ∈ d'.entries := by
    refine mem_of_mem_trunk ?_
    rw [h.trunk]
    exact List.mem_append_right _ List.mem_cons_self
  obtain ⟨A', B', hsplit⟩ := List.append_of_mem hmem
  have hd := h.grove.distinct
  rw [hsplit, Distinct, names_append, names_cons, List.perm_middle.nodup_iff, List.nodup_cons,
    List.mem_append, not_or] at hd
  obtain ⟨⟨hA, hB⟩, -⟩ := hd
  have hslot' : Slot name d' A' k.settled B' := by
    refine ⟨fun s' => ?_, hkey, hkey ▸ hA, hkey ▸ hB, ?_, hslot.settled, hslot.root⟩
    · rw [Document.set, hsplit, ← hkey, find?_split k.settled hA, if_pos Option.isSome_some,
        replace_split k.settled _ hA hB]
    · rw [hsplit, ← hkey, remove_split k.settled hA hB]
  refine ⟨A', B', hslot', hsplit, fun s' => ?_⟩
  have hsame : slotLines A' k.settled B' s = slotLines A k B s := by
    rw [← h.trunk, hsplit, trunk_split]
    rfl
  rw [← hslot'.replace_lines s s', hsame, hslot.replace_lines]

/-! ## What a document says -/

/-- A table means its names with what the items mean. -/
theorem entriesMeaning_eq (E : Entries) :
    entriesMeaning E = E.map fun e => (e.1.name, e.2.meaning) := by
  induction E with
  | nil => rfl
  | cons e rest ih => rw [entriesMeaning, ih, List.map_cons]

/-- Two halves of a table mean what each means. -/
theorem entriesMeaning_append (A B : Entries) :
    entriesMeaning (A ++ B) = entriesMeaning A ++ entriesMeaning B := by
  rw [entriesMeaning_eq, entriesMeaning_eq, entriesMeaning_eq, List.map_append]

/-- Removing a name takes just this member from what is meant. -/
theorem entriesMeaning_remove (E : Entries) :
    entriesMeaning (Toml.remove name E) = (entriesMeaning E).filter fun m => m.1 != name := by
  rw [entriesMeaning_eq, entriesMeaning_eq, List.filter_map]
  rfl

/-- **A string set at the top of a document is a lawful change**: what is written then says the
string under its name and everything else as before; and setting another string in what was read
writes what setting it in the first place would have written. -/
theorem Grown.set_reread (h : Grown E ps d) (hname : KeyText name.toList name) (s : String) :
    ∃ d' : Document, Document.ofText? (d.set name s).render = some d' ∧
      (∃ before after, d'.members = before ++ (name, .string s) :: after ∧
        (d.members.filter fun m => m.1 != name) = before ++ after) ∧
      ∀ s', (d'.set name s').render = (d.set name s').render := by
  obtain ⟨A, k, B, hslot⟩ := h.exists_slot hname
  obtain ⟨d₁, hgrown₁, hrest₁, htrailing₁⟩ := h.set hslot s
  obtain ⟨A₁, B₁, hslot₁, hsplit₁, hlines₁⟩ := hgrown₁.slot hslot
  have hparts₁ : A₁ ++ B₁ = A ++ B := hslot₁.rest.symm.trans hrest₁
  have hwritten : (d.set name s).render = d₁.render := by
    have hsame : d₁.set name s = d₁ := by rw [hslot₁.set, ← hsplit₁]
    rw [hslot.render, ← hsame, hslot₁.render, hlines₁, hparts₁, htrailing₁]
  obtain ⟨d₂, rs, hread, hgrown₂, hmembers, hsections, htrailing₂⟩ := hgrown₁.reread
  obtain ⟨A₂, B₂, hslot₂, hsplit₂, hlines₂⟩ := hgrown₂.slot hslot
  refine ⟨d₂, hwritten ▸ hread, ?_, fun s' => ?_⟩
  · refine ⟨entriesMeaning A₁, entriesMeaning B₁, ?_, ?_⟩
    · rw [hmembers, Document.members, hsplit₁, entriesMeaning_append, entriesMeaning,
        show k.settled.name = name from hslot.key]
      rfl
    · rw [Document.members, ← entriesMeaning_remove, hslot.rest, ← hparts₁, entriesMeaning_append]
  · have hparts₂ : sectionText (A₂ ++ B₂) = sectionText (A ++ B) := by
      rw [hsplit₁, hsplit₂, stringItem, sectionText_value, sectionText_value, hparts₁] at hsections
      exact hsections
    rw [hslot₂.render, hslot.render, hlines₂, hparts₂, htrailing₂, htrailing₁]

end Slot

end SessionHost.Toml
