import Mathlib.Data.List.Sort
import SessionHost.Proofs.Toml.Numbers

/-!
# Written documents

A document is written as the lines of its trunk and then header by header in the order of their
numbers.  Reading this gives the document again, with its headers numbered from one.

Main definitions:

- `InOrder`: headers in the order of their numbers.
- `sectionText`: the text of a tree's headers.
- `Grown`: a document that headers have made of the lines above them.

Main results:

- Theorem `sectionText_eq`: the headers are written in the order of their numbers.
- Theorem `Grown.reread`: what is written is read as the same document.
- Theorem `exists_grown`: every document that was read is one that headers have made.
-/

namespace SessionHost.Toml

variable {A B E F S T X : Entries}

/-! ## One table -/

theorem partsOf_asInner (lead trail : String) (path : List Key) (k : Key) :
    partsOf lead trail (path.map Key.asInner ++ [k]) = partsOf lead trail (path ++ [k]) := by
  induction path generalizing lead with
  | nil => rfl
  | cons k₁ more ih =>
    cases more with
    | nil => rfl
    | cons k₂ last =>
      have := ih k₂.behindDot
      rw [List.map_cons, List.cons_append] at this
      rw [List.map_cons, List.map_cons, List.cons_append, List.cons_append, List.cons_append,
        partsOf, List.cons_append, partsOf]
      exact congrArg _ this

/-- What surrounds a key at the end of a path does not show where it stands before others. -/
theorem pathText_asInner (path : List Key) (k : Key) (default : String × String) :
    pathText (path.map Key.asInner ++ [k]) default = pathText (path ++ [k]) default := by
  apply String.toList_injective
  rw [toList_pathText, toList_pathText, partsOf_asInner]

/-- The sheet as it is written. -/
def Sheet.chunk (s : Sheet) : Chunk := ⟨s.position, s.text⟩

/-- A header is written with the lines of its table. -/
theorem tableChunks_header {info : TableInfo} (hkind : info.kind = .header) (doubled : Bool)
    (path : List Key) (k : Key) (E : Entries) :
    tableChunks doubled (path ++ [k]) info E =
      [Sheet.chunk ⟨doubled, path.map Key.asInner, k, info.position, info.before, info.after,
        leaves [] (lines E)⟩] := by
  rw [tableChunks, hkind, Sheet.chunk, Sheet.text, headerText, headerText, pathText_asInner,
    memberLines_lines]
  rfl

/-- A table that no header has made is not written by itself. -/
theorem tableChunks_of_kind {info : TableInfo} (hkind : info.kind ≠ .header) (doubled : Bool)
    (path : List Key) (E : Entries) : tableChunks doubled path info E = [] := by
  unfold tableChunks
  cases h : info.kind with
  | header => exact absurd h hkind
  | _ => rfl

/-- A table is written as its headers if each entry is. -/
theorem entryChunks_of_each (path : List Key) (h : ∀ e ∈ E,
    itemChunks (path ++ [e.1]) e.2 =
      (itemSheets (path.map Key.asInner) e.1 e.2).map Sheet.chunk) :
    entryChunks path E = (entrySheets (path.map Key.asInner) E).map Sheet.chunk := by
  induction E with
  | nil => rfl
  | cons e rest ih =>
    rw [entryChunks, entrySheets, List.map_append, h e List.mem_cons_self,
      ih fun e he => h e (List.mem_cons_of_mem _ he)]

/-- An array is written as its headers if each table in it is. -/
theorem elementChunks_of_each (path : List Key) (k : Key)
    {ts : List (TableInfo × List (Key × Item))}
    (hkind : ∀ t ∈ ts, t.1.kind = .header)
    (h : ∀ t ∈ ts, ∀ e ∈ t.2, ∀ path : List Key, itemChunks (path ++ [e.1]) e.2 =
      (itemSheets (path.map Key.asInner) e.1 e.2).map Sheet.chunk) :
    elementChunks (path ++ [k]) ts =
      (elementSheets (path.map Key.asInner) k ts).map Sheet.chunk := by
  induction ts with
  | nil => rfl
  | cons t rest ih =>
    obtain ⟨info, inner⟩ := t
    have hheader := hkind (info, inner) List.mem_cons_self
    have hfirst := entryChunks_of_each (path ++ [k])
      fun e he => h (info, inner) List.mem_cons_self e he _
    rw [elementChunks, elementSheets, tableChunks_header hheader, hfirst,
      ih (fun t ht => hkind t (List.mem_cons_of_mem _ ht))
        (fun t ht => h t (List.mem_cons_of_mem _ ht))]
    simp

/-- What has grown is written as its headers, by induction over it. -/
theorem Growth.itemChunks {k : Key} {item : Item} (h : Growth k item) :
    ∀ path : List Key, itemChunks (path ++ [k]) item =
      (itemSheets (path.map Key.asInner) k item).map Sheet.chunk := by
  have hinner {k : Key} {inner : Entries} (ih : ∀ e ∈ inner, ∀ path : List Key,
      Toml.itemChunks (path ++ [e.1]) e.2 =
        (itemSheets (path.map Key.asInner) e.1 e.2).map Sheet.chunk) (path : List Key) :
      entryChunks (path ++ [k]) inner =
        (entrySheets (path.map Key.asInner ++ [k.asInner]) inner).map Sheet.chunk := by
    have := entryChunks_of_each (path ++ [k]) fun e he => ih e he _
    rwa [List.map_append] at this
  induction h with
  | value => exact fun _ => rfl
  | dotted _ _ _ ih =>
    intro path
    rw [Toml.itemChunks, itemSheets_of_kind (by simp), tableChunks_of_kind (by simp), hinner ih]
    rfl
  | above _ _ _ _ ih =>
    intro path
    rw [Toml.itemChunks, itemSheets_of_kind (by simp), tableChunks_of_kind (by simp), hinner ih]
    rfl
  | header _ hkind _ _ ih =>
    intro path
    rw [Toml.itemChunks, itemSheets_header hkind, hinner ih, tableChunks_header hkind]
    rfl
  | @tables k elements _ hkind _ _ ih =>
    intro path
    exact elementChunks_of_each path k hkind ih

/-- The tables of a tree are written as its sheets. -/
theorem Grove.entryChunks (hE : Grove E) :
    entryChunks [] E = (entrySheets [] E).map Sheet.chunk :=
  entryChunks_of_each [] fun e he => (hE.growth e he).itemChunks []

/-! ## All tables -/

/-- Headers in the order of their numbers. -/
def InOrder (shs : List Sheet) : Prop := (shs.map Sheet.position).Pairwise (· < ·)

/-- The text of the tables below entries. -/
def sectionText (entries : Entries) : String :=
  String.join (((entryChunks [] entries).mergeSort fun a b => a.position ≤ b.position).map
    Chunk.text)

/-- A document is written as its own lines, its sections in order, and its end. -/
theorem render_eq (d : Document) : d.render =
    memberLines (ownMembers [] d.entries) ++ sectionText d.entries ++ d.trailing := rfl

/-- Tables in the order of their numbers are what sorting makes of them. -/
theorem mergeSort_of_perm {l m : List Chunk} (h : l.Perm m)
    (hm : (m.map Chunk.position).Pairwise (· < ·)) :
    (l.mergeSort fun a b => a.position ≤ b.position) = m := by
  have hperm := (List.mergeSort_perm l fun a b => decide (a.position ≤ b.position)).trans h
  have hsorted : (l.mergeSort fun a b => a.position ≤ b.position).Pairwise
      fun a b => a.position ≤ b.position := by
    refine (List.pairwise_mergeSort ?_ ?_ l).imp of_decide_eq_true
    · simp only [decide_eq_true_eq]
      omega
    · simp only [Bool.or_eq_true, decide_eq_true_eq]
      omega
  refine hperm.eq_of_pairwise (fun a b ha hb hab hba => ?_) hsorted
    ((List.pairwise_map.1 hm).imp Nat.le_of_lt)
  exact List.inj_on_of_nodup_map (hm.imp Nat.ne_of_lt) (hperm.subset ha) hb
    (Nat.le_antisymm hab hba)

/-- The headers of a tree are written in the order of their numbers. -/
theorem sectionText_eq (hE : Grove E) {shs : List Sheet} (h : (entrySheets [] E).Perm shs)
    (horder : InOrder shs) : sectionText E = String.join (shs.map Sheet.text) := by
  have hsorted : ((shs.map Sheet.chunk).map Chunk.position).Pairwise (· < ·) := by
    rw [List.map_map]
    exact horder
  rw [sectionText, hE.entryChunks, mergeSort_of_perm (h.map _) hsorted, List.map_map]
  rfl

/-! ## Documents -/

/-- A document that headers have made of the lines above them. -/
structure Grown (E : Entries) (ps : List Plot) (d : Document) : Prop where
  lines : LineForest E
  plots : ∀ p ∈ ps, p.Sound
  order : (ps.map Plot.position).Pairwise (· < ·)
  placed : placePlots? ps E = some d.entries
  trailing : IsTrailing d.trailing.toList

section Grown

variable {ps : List Plot} {d : Document}

/-- The tree of a document that was read could stand in a document. -/
theorem Grown.grove (h : Grown E ps d) : Grove d.entries :=
  (h.lines.grove.placePlots? h.plots h.placed).1

/-- Headers leave the lines in front of them alone. -/
theorem Grown.trunk (h : Grown E ps d) : trunk d.entries = E :=
  (h.lines.grove.placePlots? h.plots h.placed).2.trans h.lines.forest.trunk

/-- No dot stands before the keys of a document. -/
theorem Grown.root (h : Grown E ps d) : RootKeys d.entries :=
  h.lines.root.placePlots? h.lines.grove h.plots h.placed

theorem Plot.Sound.sheet {p : Plot} (h : p.Sound) : p.sheet.Sound :=
  ⟨h.path, h.key, h.root, h.height, h.before, h.after, h.own.sound⟩

/-- Whether a header is sound does not depend on its number. -/
theorem Plot.Sound.renumber {p : Plot} (h : p.Sound) (f : Nat → Nat) : (p.renumber f).Sound :=
  ⟨h.path, h.key, h.root, h.height, h.before, h.after, h.own⟩

/-- Each number's place in a list without repetitions. -/
theorem map_idxOf {l : List Nat} (h : l.Nodup) :
    l.map (fun n => l.idxOf n + 1) = List.range' 1 l.length := by
  refine List.ext_getElem (by simp) fun i hi _ => ?_
  rw [List.getElem_map, List.getElem_range', h.idxOf_getElem]
  omega

/-- What does not begin a statement does not begin a document that was read. -/
theorem readStatement?_mark (cs : List Char) : readStatement? ('\uFEFF' :: cs) = none := by
  rfl

/-- What is read line by line begins without a byte order mark. -/
theorem dropByteOrderMark_of_readsAs {cs : List Char} {ss : List Statement} (h : ReadsAs cs ss) :
    dropByteOrderMark cs = cs := by
  unfold dropByteOrderMark
  split
  · next rest =>
    have := h _ le_rfl
    rw [List.length_cons, readStatements?, readStatement?_mark] at this
    cases this
  · rfl

/-- The end of a document has no carriage return. -/
theorem IsTrailing.noReturn {cs : List Char} (h : IsTrailing cs) : '\r' ∉ cs := by
  obtain ⟨lines, tail, rfl, hlines, htail⟩ := h
  rw [List.mem_append]
  exact fun hmem => hmem.elim hlines.noReturn htail.noReturn

/-- What is written for leaves and headers is read as the document that they make. -/
theorem ofText?_written (hE : LineForest E) {rs : List Plot} (hrs : ∀ p ∈ rs, p.Sound)
    (hnumbers : rs.map Plot.position = List.range' 1 rs.length) (hT : placePlots? rs E = some T)
    {trailing : String} (htrailing : IsTrailing trailing.toList) :
    Document.ofText? (memberLines (ownMembers [] E) ++
      String.join ((rs.map Plot.sheet).map Sheet.text) ++ trailing) = some ⟨T, trailing⟩ := by
  have hsheets : ∀ s ∈ rs.map Plot.sheet, s.Sound := by
    intro s hs
    obtain ⟨p, hp, rfl⟩ := List.mem_map.1 hs
    exact (hrs p hp).sheet
  obtain ⟨ss, o, hread, rfl, hhead, hsections, hend⟩ :=
    readsAs_written hE.sound hsheets htrailing
  have htext : (memberLines (ownMembers [] E) ++
      String.join ((rs.map Plot.sheet).map Sheet.text) ++ trailing).toList =
      leafLines (leaves [] E) ++ ((rs.map Plot.sheet).flatMap (fun s => s.text.toList) ++
        trailing.toList) := by
    rw [String.toList_append, String.toList_append, ownMembers_eq, toList_memberLines,
      String.toList_join, List.flatMap_map, List.append_assoc]
  have hstatements : statements? (memberLines (ownMembers [] E) ++
      String.join ((rs.map Plot.sheet).map Sheet.text) ++ trailing) = some ss := by
    rw [statements?, htext]
    simp only [dropByteOrderMark_of_readsAs hread]
    exact hread _ le_rfl
  have hlines : addMembers? (Outline.ofStatements ss).head [] = some E := by
    rw [addMembers?_eq hhead]
    exact hE.addLeaves?_nil
  have hplaced : addSections? 1 E (Outline.ofStatements ss).sections = some T := by
    rw [addSections?_eq hsections (by rw [List.map_map, List.length_map]; exact hnumbers),
      placeSheets?_eq]
    exact hT
  rw [Document.ofText?, hstatements, Option.bind_some, Document.ofOutline?, hlines,
    Option.bind_some, hplaced, hend, plainText_of_noReturn htrailing.noReturn]
  simp

/-- **A document that is written is read as the same document**, with its headers numbered from
one; and it is written again as it was. -/
theorem Grown.reread (h : Grown E ps d) : ∃ d' rs,
    Document.ofText? d.render = some d' ∧ Grown E rs d' ∧ d'.members = d.members ∧
      sectionText d'.entries = sectionText d.entries ∧ d'.trailing = d.trailing := by
  obtain ⟨qs, hqs, hsound, hpositions, hperm⟩ :=
    regrow h.lines h.plots h.placed h.grove.alike_refl h.root
  have horder : (qs.map Plot.position).Pairwise (· < ·) := hpositions ▸ h.order
  let f : Nat → Nat := fun n => (qs.map Plot.position).idxOf n + 1
  have hnumbers : (qs.map (Plot.renumber f)).map Plot.position =
      List.range' 1 (qs.map (Plot.renumber f)).length := by
    have := map_idxOf (horder.imp Nat.ne_of_lt)
    rw [List.map_map, List.length_map] at this
    rw [List.map_map, List.length_map]
    exact this
  have hrs : ∀ r ∈ qs.map (Plot.renumber f), r.Sound := by
    intro r hr
    obtain ⟨q, hq, rfl⟩ := List.mem_map.1 hr
    exact (hsound q hq).renumber f
  have hplaced := placePlots?_renumber f h.lines.grove hsound hqs
  rw [h.lines.forest.renumber f] at hplaced
  have hgrown : Grown E (qs.map (Plot.renumber f)) ⟨renumber f d.entries, d.trailing⟩ :=
    ⟨h.lines, hrs, hnumbers ▸ List.pairwise_lt_range', hplaced, h.trailing⟩
  have hsections : sectionText d.entries = String.join ((qs.map Plot.sheet).map Sheet.text) :=
    sectionText_eq h.grove hperm (by rw [InOrder, List.map_map]; exact horder)
  have hagain : sectionText (renumber f d.entries) =
      String.join (((qs.map (Plot.renumber f)).map Plot.sheet).map Sheet.text) := by
    refine sectionText_eq hgrown.grove ?_ ?_
    · rw [h.grove.entrySheets_renumber, List.map_map]
      have := hperm.map (Sheet.renumber f)
      rwa [List.map_map] at this
    · rw [InOrder, List.map_map]
      exact hgrown.order
  have htexts : ((qs.map (Plot.renumber f)).map Plot.sheet).map Sheet.text =
      (qs.map Plot.sheet).map Sheet.text := by
    rw [List.map_map, List.map_map, List.map_map]
    rfl
  refine ⟨_, _, ?_, hgrown, entriesMeaning_renumber f _, by rw [hagain, htexts, hsections], rfl⟩
  have hread := ofText?_written h.lines hrs hnumbers hplaced h.trailing
  rw [htexts, ← hsections] at hread
  rw [render_eq, ownMembers_eq, leaves_of_trunk_eq (h.trunk.trans h.lines.forest.trunk.symm),
    ← ownMembers_eq]
  exact hread

end Grown

/-! ## Documents that were read -/

/-- **A document that was read is one that headers have made** of the lines above them. -/
theorem exists_grown {text : String} {d : Document} (h : Document.ofText? text = some d) :
    ∃ E ps, Grown E ps d := by
  obtain ⟨ss, hss, hdocument⟩ := Option.bind_eq_some_iff.1 h
  obtain ⟨T, hT, rfl⟩ := Option.map_eq_some_iff.1 hdocument
  obtain ⟨E, hE, hsections⟩ := Option.bind_eq_some_iff.1 hT
  have hsound := (readStatements?_sound hss).1.outline
  obtain ⟨ls, hhead, hls⟩ := MemberSound.leaves hsound.head
  obtain ⟨shs, hcs, hshs, hpositions⟩ := SectionSound.sheets hsound.sections 1
  rw [addMembers?_eq hhead] at hE
  have hlines : LineForest E := lineForest_nil.addLeaves? hls hE
  rw [addSections?_eq hcs hpositions] at hsections
  obtain ⟨ps, hps, hnumbers, hplaced⟩ := hlines.grove.exists_plots hshs hsections
  refine ⟨E, ps, hlines, hps, ?_, hplaced, ?_⟩
  · rw [hnumbers, hpositions]
    exact List.pairwise_lt_range'
  · rw [plainText, String.toList_ofList]
    exact hsound.trailing

end SessionHost.Toml
