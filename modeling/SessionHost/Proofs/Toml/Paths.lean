import SessionHost.Proofs.Toml.Branches
import SessionHost.Proofs.Toml.Words

/-!
# Written keys are read back

A path of keys is written with the texts that surrounded its keys where they stood.  Reading what
was written gives the parts of the path again, and from the parts the same keys.

Main definitions:

- `Key.Sound`: a key with a text that is read as its name.
- `Key.asInner`, `Key.asLeaf`: a key as it is read in front of a dot, and at the end.
- `partsOf`: the parts of a written path.

Main results:

- Theorem `toList_pathText`: the text of a path is that of its parts.
- Theorem `ofPath?_partsOf`: the parts give the keys again.
- Theorem `ofPath?_sound`: what is known of keys that were read.
-/

namespace SessionHost.Toml

variable {cs rest : List Char}

/-- A key with a text that is read as its name, and blank space around its dots. -/
structure Key.Sound (k : Key) : Prop where
  text : KeyText k.raw.toList k.name
  beforeDot : ∀ c ∈ k.beforeDot.toList, isBlankChar c = true
  behindDot : ∀ c ∈ k.behindDot.toList, isBlankChar c = true

/-- A key as it is read in front of a dot. -/
def Key.asInner (k : Key) : Key := { k with around := none }

/-- A key as it is read at the end of a path. -/
def Key.asLeaf (around : String × String) (k : Key) : Key :=
  ⟨k.name, k.raw, some around, "", k.behindDot⟩

/-- A key as it stands in a tree before other keys. -/
structure IsInnerKey (k : Key) : Prop where
  sound : k.Sound
  around : k.around = none

/-- A key as it stands in a tree at the end, with texts of some kinds around the whole path. -/
structure IsLeafKey (IsLead IsTrail : List Char → Prop) (k : Key) : Prop where
  sound : k.Sound
  beforeDot : k.beforeDot = ""
  around : ∃ lead trail, k.around = some (lead, trail) ∧ IsLead lead.toList ∧ IsTrail trail.toList

/-- The keys on the way to a key at the end, and that key. -/
theorem IsLeafKey.path_sound {IsLead IsTrail : List Char → Prop} {path : List Key} {key : Key}
    (hkey : IsLeafKey IsLead IsTrail key) (hpath : ∀ k ∈ path, IsInnerKey k) :
    ∀ k ∈ path ++ [key], k.Sound := by
  intro k hk
  rcases List.mem_append.1 hk with hk | hk
  · exact (hpath k hk).sound
  · obtain rfl := List.mem_singleton.1 hk
    exact hkey.sound

/-- A key between dots is one already. -/
theorem IsInnerKey.asInner {k : Key} (h : IsInnerKey k) : k.asInner = k := by
  obtain ⟨name, raw, around, beforeDot, behindDot⟩ := k
  obtain rfl : around = none := h.around
  rfl

/-- A key at the end of a path is one already, with what stands around it. -/
theorem IsLeafKey.asLeaf {IsLead IsTrail : List Char → Prop} {k : Key}
    (h : IsLeafKey IsLead IsTrail k) {around : String × String} (ha : k.around = some around) :
    k.asLeaf around = k := by
  obtain ⟨name, raw, around', beforeDot, behindDot⟩ := k
  obtain rfl : around' = some around := ha
  obtain rfl : beforeDot = "" := h.beforeDot
  rfl

/-- Every sound key can stand between dots. -/
theorem Key.Sound.asInner {k : Key} (h : k.Sound) : IsInnerKey k.asInner :=
  ⟨⟨h.text, h.beforeDot, h.behindDot⟩, rfl⟩

/-- The parts of a written path, with the space in front of it and behind it. -/
def partsOf (lead trail : String) : List Key → List KeyPart
  | [] => []
  | [k] => [⟨k.name, k.raw, lead, trail⟩]
  | k :: k' :: rest => ⟨k.name, k.raw, lead, k.beforeDot⟩ :: partsOf k'.behindDot trail (k' :: rest)

@[simp] theorem length_partsOf (lead trail : String) (path : List Key) :
    (partsOf lead trail path).length = path.length := by
  fun_induction partsOf <;> simp_all

theorem partsOf_ne_nil {path : List Key} (h : path ≠ []) (lead trail : String) :
    partsOf lead trail path ≠ [] := by
  intro hnil
  have := length_partsOf lead trail path
  rw [hnil] at this
  exact h (List.eq_nil_of_length_eq_zero this.symm)

/-- The parts of a path of sound keys are sound. -/
theorem partsOf_sound {lead trail : String} {path : List Key} (hpath : ∀ k ∈ path, k.Sound)
    (hlead : ∀ c ∈ lead.toList, isBlankChar c = true)
    (htrail : ∀ c ∈ trail.toList, isBlankChar c = true) :
    ∀ p ∈ partsOf lead trail path, p.Sound := by
  fun_induction partsOf with
  | case1 => simp
  | case2 lead k =>
    intro p hp
    obtain rfl := List.mem_singleton.1 hp
    exact ⟨(hpath k List.mem_cons_self).text, hlead, htrail⟩
  | case3 lead k k' rest ih =>
    intro p hp
    have hk := hpath k List.mem_cons_self
    rcases List.mem_cons.1 hp with rfl | hp
    · exact ⟨hk.text, hlead, hk.beforeDot⟩
    · exact ih (fun d hd => hpath d (List.mem_cons_of_mem _ hd))
        (hpath k' (by simp)).behindDot p hp

/-- A dot stands before every key but the first. -/
theorem inner_false (k : Key) (rest : List Key) :
    pathText.inner false (k :: rest) = "." ++ k.behindDot ++ pathText.inner true (k :: rest) := by
  cases rest <;> simp [pathText.inner, String.append_assoc]

/-- A key between dots is written with what stands around the dots. -/
theorem inner_cons (k k' : Key) (rest : List Key) :
    pathText.inner true (k :: k' :: rest) =
      k.raw ++ k.beforeDot ++ "." ++ k'.behindDot ++ pathText.inner true (k' :: rest) := by
  conv_lhs => rw [pathText.inner.eq_def]
  simp [inner_false, String.append_assoc]

/-- The parts spell the path, with what stands before and behind it. -/
theorem partsText_partsOf (lead trail : String) {path : List Key} (h : path ≠ []) :
    partsText (partsOf lead trail path) =
      lead.toList ++ ((pathText.inner true path).toList ++ trail.toList) := by
  fun_induction partsOf with
  | case1 => exact absurd rfl h
  | case2 lead k => simp [partsText, partText, pathText.inner]
  | case3 lead k k' rest ih =>
    have hne := partsOf_ne_nil (List.cons_ne_nil k' rest) k'.behindDot trail
    obtain ⟨p, ps, hp⟩ := List.exists_cons_of_ne_nil hne
    have hmore := ih (List.cons_ne_nil _ _)
    rw [hp] at hmore ⊢
    rw [partsText, hmore, inner_cons, partText]
    simp

/-- The text of a path is that of its parts, between the texts around it. -/
theorem toList_pathText (path : List Key) (k : Key) (default : String × String) :
    (pathText (path ++ [k]) default).toList =
      (k.around.getD default).1.toList ++
        (partsText (partsOf "" "" (path ++ [k])) ++ (k.around.getD default).2.toList) := by
  rw [partsText_partsOf "" "" (by simp), pathText]
  simp

/-- Space in front of a path and behind it belongs to the first and the last part. -/
theorem partsText_partsOf_blank (lead trail : String) {path : List Key} (h : path ≠ []) :
    partsText (partsOf lead trail path) =
      lead.toList ++ (partsText (partsOf "" "" path) ++ trail.toList) := by
  rw [partsText_partsOf lead trail h, partsText_partsOf "" "" h]
  simp

/-! ## From parts to keys -/

theorem mapIdx_const {α β : Type} (f : α → β) (l : List α) : l.mapIdx (fun _ => f) = l.map f := by
  induction l with
  | nil => rfl
  | cons a rest ih => rw [List.mapIdx_cons, ih, List.map_cons]

/-- The last part carries what stands behind the path. -/
theorem getLast?_partsOf (lead trail : String) (path : List Key) (k : Key) :
    (partsOf lead trail (path ++ [k])).getLast? =
      some ⟨k.name, k.raw, if path.isEmpty then lead else k.behindDot, trail⟩ := by
  induction path generalizing lead with
  | nil => rfl
  | cons k₁ more ih =>
    cases more with
    | nil => rfl
    | cons k₂ last =>
      rw [List.cons_append, List.cons_append, partsOf, ← List.cons_append, List.getLast?_cons,
        ih k₂.behindDot]
      rfl

/-- All parts but the last are keys between dots. -/
theorem dropLast_partsOf (trail : String) (path : List Key) (k : Key) :
    ∀ d ∈ (path ++ [k]).head?,
      (partsOf d.behindDot trail (path ++ [k])).dropLast.map (Key.inner false) =
        path.map Key.asInner := by
  induction path with
  | nil => simp [partsOf]
  | cons k₁ more ih =>
    rintro d ⟨⟩
    obtain ⟨k₂, last, hmore⟩ : ∃ k₂ last, more ++ [k] = k₂ :: last := by
      cases more <;> simp
    have hnext := ih k₂ (by rw [hmore]; rfl)
    rw [hmore] at hnext
    obtain ⟨p, ps, hp⟩ := List.exists_cons_of_ne_nil
      (partsOf_ne_nil (List.cons_ne_nil k₂ last) k₂.behindDot trail)
    rw [List.cons_append, hmore, partsOf]
    rw [hp] at hnext ⊢
    rw [List.dropLast_cons_cons, List.map_cons, hnext, List.map_cons]
    rfl

/-- The parts of a path give its keys again, as they are read. -/
theorem ofPath?_partsOf (before lead trail after : String) (path : List Key) (k : Key)
    (hroot : ∀ d ∈ (path ++ [k]).head?, d.behindDot = "") :
    Key.ofPath? before (partsOf lead trail (path ++ [k])) after =
      some (path.map Key.asInner, k.asLeaf (before ++ lead, trail ++ after)) := by
  cases path with
  | nil =>
    have hk : k.behindDot = "" := hroot k rfl
    simp [partsOf, Key.ofPath?, Key.asLeaf, hk]
  | cons k₁ more =>
    have hk : k₁.behindDot = "" := hroot k₁ rfl
    obtain ⟨k₂, last, hmore⟩ : ∃ k₂ last, more ++ [k] = k₂ :: last := by
      cases more <;> simp
    have hinner := dropLast_partsOf trail more k k₂ (by rw [hmore]; rfl)
    have hlast := getLast?_partsOf lead trail (k₁ :: more) k
    rw [hmore] at hinner
    obtain ⟨p, ps, hp⟩ := List.exists_cons_of_ne_nil
      (partsOf_ne_nil (List.cons_ne_nil k₂ last) k₂.behindDot trail)
    rw [List.cons_append, hmore, partsOf] at hlast ⊢
    rw [hp] at hinner hlast ⊢
    unfold Key.ofPath?
    rw [hlast]
    simp [List.mapIdx_cons, Key.inner, Key.asInner, Key.asLeaf, hk]
    exact (mapIdx_const (Key.inner false) _).trans hinner

/-- Reading keys finds keys that can be written, and nothing but blank space around them. -/
theorem ofPath?_sound {before after : String} {parts : List KeyPart} {path : List Key} {key : Key}
    (hparts : ∀ p ∈ parts, p.Sound) (h : Key.ofPath? before parts after = some (path, key)) :
    (∀ k ∈ path, IsInnerKey k) ∧ key.Sound ∧ key.beforeDot = "" ∧
      path.length + 1 = parts.length ∧ (∀ k ∈ (path ++ [key]).head?, k.behindDot = "") ∧
      ∃ lead trail, key.around = some (before ++ lead, trail ++ after) ∧
        (∀ c ∈ lead.toList, isBlankChar c = true) ∧ ∀ c ∈ trail.toList, isBlankChar c = true := by
  unfold Key.ofPath? at h
  split at h
  · next first more last hlast =>
    cases h
    have hfirst := hparts first List.mem_cons_self
    have hlastSound := hparts last (List.mem_of_getLast? hlast)
    have hinner (i : Nat) (p : KeyPart) (hp : p.Sound) : IsInnerKey (Key.inner (i == 0) p) := by
      refine ⟨⟨hp.text, hp.after, fun c hc => ?_⟩, rfl⟩
      simp only [Key.inner] at hc
      split at hc
      · simp at hc
      · exact hp.before c hc
    refine ⟨fun k hk => ?_, ⟨hlastSound.text, by simp, fun c hc => ?_⟩, rfl, by simp, ?_,
      first.before, last.after, rfl, hfirst.before, hlastSound.after⟩
    · obtain ⟨i, hi, rfl⟩ := List.mem_mapIdx.1 hk
      exact hinner i _ (hparts _ ((List.dropLast_sublist _).subset (List.getElem_mem hi)))
    · simp only at hc
      split at hc
      · simp at hc
      · exact hlastSound.before c hc
    · cases more with
      | nil => simp
      | cons second others =>
        rintro k hk
        rw [List.dropLast_cons_cons, List.mapIdx_cons, List.cons_append] at hk
        cases hk
        rfl
  · cases h

end SessionHost.Toml
