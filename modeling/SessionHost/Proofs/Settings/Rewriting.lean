import SessionHost.Proofs.Toml.Change
import SessionHost.Settings.Store

/-!
# The text of a settings file with another preferred runtime

Putting the name of a runtime into the text of a document gives the text of a document that says
this name and everything else as before; and only the last name that is put into a text decides what
it is.

Main definitions:

- `Rewritten`: one text as another one with a name put into it.

Main results:

- Theorem `rewritten_of_withDefaultVersion?`: what becomes of a document.
- Theorem `Rewritten.settings`: what becomes of the settings in it.
-/

namespace SessionHost

open Toml (Value Scalar Document)

variable {text name t : String}

/-! ## Settings -/

/-- Members under other keys than that of the preferred runtime. -/
def otherMembers (members : List (String × Value)) : List (String × Value) :=
  members.filter fun m => m.1 != defaultVersionKey

/-- The other members are found as before. -/
theorem member?_otherMembers {key : String} (h : key ≠ defaultVersionKey)
    (members : List (String × Value)) :
    Toml.member? key (otherMembers members) = Toml.member? key members := by
  rw [Toml.member?, Toml.member?, otherMembers, List.find?_filter]
  refine congrArg _ (congrArg (List.find? · members) (funext fun m => ?_))
  by_cases hm : m.1 = key
  · simp [hm, h]
  · simp [hm]

/-- The preferred runtime is none of the other members. -/
theorem member?_otherMembers_self (members : List (String × Value)) :
    Toml.member? defaultVersionKey (otherMembers members) = none := by
  rw [Toml.member?, otherMembers, Option.map_eq_none_iff, List.find?_eq_none]
  intro m hm
  simpa using (List.mem_filter.1 hm).2

/-- The other members can be passed over exactly where all can. -/
theorem isPassable_otherMembers {names : List String} (h : defaultVersionKey ∈ names)
    (members : List (String × Value)) :
    isPassable names (otherMembers members) = isPassable names members := by
  rw [isPassable, isPassable, otherMembers, List.all_filter]
  refine congrArg (List.all members) (funext fun m => ?_)
  by_cases hm : m.1 = defaultVersionKey
  · simp [hm, h]
  · simp [hm]

/-- Settings from a table in which the preferred runtime is named. -/
theorem ofMembers?_named {members others : List (String × Value)}
    (hname : Toml.member? defaultVersionKey members = some (.string name))
    (hothers : otherMembers members = otherMembers others) :
    Settings.ofMembers? members = (Settings.ofMembers? (otherMembers others)).map
      fun s => { s with defaultVersion := some name } := by
  rw [← hothers]
  unfold Settings.ofMembers? fields?
  simp only [List.map_cons, List.map_nil]
  rw [isPassable_otherMembers (by simp), hname, member?_otherMembers_self,
    member?_otherMembers (by decide), member?_otherMembers (by decide),
    member?_otherMembers (by decide), member?_otherMembers (by decide),
    member?_otherMembers (by decide)]
  cases isPassable _ members with
  | false => rfl
  | true => simp [setting, text?, Option.map_bind]

/-! ## Texts -/

/-- A text as another one with the name of a runtime put into it: both are documents and differ in
nothing but the name, and another name put into either of them gives the same text. -/
structure Rewritten (text name t : String) : Prop where
  document : ∃ d d' : Document, Document.ofText? text = some d ∧ Document.ofText? t = some d' ∧
    Toml.member? defaultVersionKey d'.members = some (.string name) ∧
    otherMembers d'.members = otherMembers d.members
  again : ∀ other, (withDefaultVersion? t other).isSome ∧
    withDefaultVersion? t other = withDefaultVersion? text other

/-- A property holds of all scalars if it does of those of each member. -/
theorem allMembers_eq (p : Scalar → Bool) (members : List (String × Value)) :
    Value.allMembers p members = members.all fun m => m.2.allScalars p := by
  induction members with
  | nil => rfl
  | cons m rest ih => rw [Value.allMembers, ih, List.all_cons]

/-- The name of the setting can be written as it is. -/
theorem keyText_defaultVersionKey :
    Toml.KeyText defaultVersionKey.toList defaultVersionKey := by
  have hread : Toml.readKeyName? defaultVersionKey.toList = some (defaultVersionKey, []) := by
    decide
  obtain ⟨raw, hraw, htext⟩ := Toml.readKeyName?_local hread
  rw [List.append_nil] at hraw
  exact hraw ▸ htext

/-- A text that is read is changed and written, if all in it can be edited. -/
theorem withDefaultVersion?_eq {d : Document} (h : Document.ofText? text = some d)
    (name : String) : withDefaultVersion? text name =
      if Value.allMembers Scalar.isEditable d.members then
        some (d.set defaultVersionKey name).render
      else none := by
  rw [withDefaultVersion?, h]

/-- A name in the place that it has among the members of a document. -/
theorem members_named (name : String) {members before after : List (String × Value)}
    (h : otherMembers members = before ++ after) :
    Toml.member? defaultVersionKey (before ++ (defaultVersionKey, .string name) :: after) =
        some (.string name) ∧
      otherMembers (before ++ (defaultVersionKey, .string name) :: after) = before ++ after := by
  have hother : ∀ m ∈ before ++ after, (m.1 != defaultVersionKey) = true := by
    rw [← h]
    exact fun m hm => (List.mem_filter.1 hm).2
  have hbefore : before.find? (fun m => m.1 == defaultVersionKey) = none := by
    rw [List.find?_eq_none]
    intro m hm
    simpa using hother m (List.mem_append_left _ hm)
  refine ⟨?_, ?_⟩
  · rw [Toml.member?, List.find?_append, hbefore, List.find?_cons_of_pos (by simp)]
    rfl
  · rw [otherMembers, List.filter_append, List.filter_cons_of_neg (by simp), ← List.filter_append]
    exact List.filter_eq_self.2 hother

/-- Only what is read as a document can be given another name. -/
theorem exists_document (h : withDefaultVersion? text name = some t) :
    ∃ d, Document.ofText? text = some d := by
  rw [withDefaultVersion?] at h
  split at h
  · cases h
  · next d hd => exact ⟨d, hd⟩

/-- **A name put into a document**: what is written is a document that says this name and everything
else as before, and only the last name counts. -/
theorem rewritten_of_withDefaultVersion? (ht : withDefaultVersion? text name = some t) :
    Rewritten text name t := by
  obtain ⟨d, hread⟩ := exists_document ht
  obtain ⟨E, ps, hgrown⟩ := Toml.exists_grown hread
  obtain ⟨d', hread', ⟨before, after, hmembers, hothers⟩, hagain⟩ :=
    hgrown.set_reread keyText_defaultVersionKey name
  rw [withDefaultVersion?_eq hread] at ht
  split at ht
  · next heditable =>
    cases ht
    obtain ⟨hnamed, hsame⟩ := members_named name hothers
    have heditable' : Value.allMembers Scalar.isEditable d'.members = true := by
      rw [allMembers_eq, List.all_eq_true] at heditable ⊢
      rw [hmembers]
      intro m hm
      have hold : m ∈ before ++ after → m.2.allScalars Scalar.isEditable = true := fun hm =>
        heditable m (List.mem_filter.1 (hothers ▸ hm)).1
      rcases List.mem_append.1 hm with hm | hm
      · exact hold (List.mem_append_left _ hm)
      · rcases List.mem_cons.1 hm with rfl | hm
        · rfl
        · exact hold (List.mem_append_right _ hm)
    refine ⟨⟨d, d', hread, hread', hmembers ▸ hnamed, ?_⟩, fun other => ?_⟩
    · rw [hmembers, hsame]
      exact hothers.symm
    · rw [withDefaultVersion?_eq hread', if_pos heditable', withDefaultVersion?_eq hread,
        if_pos heditable, hagain other]
      exact ⟨rfl, rfl⟩
  · cases ht

/-- The settings in a rewritten text are those in the rest of the old one, with the name. -/
theorem Rewritten.settings (h : Rewritten text name t) :
    ∃ d : Document, Document.ofText? text = some d ∧
      Settings.ofText? t = (Settings.ofMembers? (otherMembers d.members)).map
        fun s => { s with defaultVersion := some name } := by
  obtain ⟨d, d', hread, hread', hnamed, hothers⟩ := h.document
  refine ⟨d, hread, ?_⟩
  rw [Settings.ofText?, hread', Option.bind_some]
  exact ofMembers?_named hnamed hothers

end SessionHost
