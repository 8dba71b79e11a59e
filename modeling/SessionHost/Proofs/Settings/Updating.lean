import SessionHost.Proofs.Settings.Storing

/-!
# Saving the name of a runtime

The text of a settings file with a name in it is a lawful update of the text that was there, and
saving a name puts this text into the file.  Of several names that are saved one after the other,
only the last one leaves a trace.

Main definitions:

- `Saved`: a name saved in a file, and another one after it.

Main results:

- Theorem `saved_of_ready`: where a file is ready, a name is saved.
- Theorem `preferred_runtime_rewritten`: what becomes of the text, the settings and the file.
-/

namespace SessionHost

open Toml (Document)

variable {files : FileTree} {p : Path} {text name t : String}

/-- A name is saved in a file, which holds a text then; and another name saved after that leaves
what it leaves when it is saved alone. -/
structure Saved (files : FileTree) (p : Path) (name t : String) : Prop where
  done : (persistDefaultVersion p name (.sound files)).1 = .ok ()
  read : (persistDefaultVersion p name (.sound files)).2.files.read p = .ok (Text.utf8Bytes t)
  again : ∀ other,
    (persistDefaultVersion p other (persistDefaultVersion p name (.sound files)).2).1 = .ok () ∧
    (persistDefaultVersion p other (persistDefaultVersion p name (.sound files)).2).2.files.read p =
      (persistDefaultVersion p other (.sound files)).2.files.read p

/-- Where a file is ready, the text with a name is what saving the name leaves. -/
theorem saved_of_ready (hready : files.Ready p text) (ht : withDefaultVersion? text name = some t) :
    Saved files p name t := by
  have hsound := DiskM.isSound_sound files
  obtain ⟨d, hdone, hsound', hread, hready'⟩ := persist_ready hsound hready ht
  refine ⟨by rw [hdone], by rw [hdone]; exact hread, fun other => ?_⟩
  -- The other name gives one text, whether it is put into the old text or into the new one.
  obtain ⟨hother, hsame⟩ := (rewritten_of_withDefaultVersion? ht).again other
  obtain ⟨u, hu⟩ := Option.isSome_iff_exists.1 hother
  obtain ⟨d₁, hdone₁, -, hread₁, -⟩ := persist_ready hsound' hready' hu
  obtain ⟨d₂, hdone₂, -, hread₂, -⟩ := persist_ready hsound hready (hsame ▸ hu)
  rw [hdone, hdone₂]
  dsimp only
  rw [hdone₁]
  exact ⟨rfl, hread₁.trans hread₂.symm⟩

/-- **Saving the preferred runtime is a lawful update of a document.**  The new text says the name
and everything else as before, its settings are those of the rest with the name, and another name
put into it gives what it gives in the old text.  This text is what is in the file when the name has
been saved, wherever its folder is there or can be made; and a second name leaves what it leaves
alone. -/
theorem preferred_runtime_rewritten (ht : withDefaultVersion? text name = some t) :
    Rewritten text name t ∧
    (∃ d : Document, Document.ofText? text = some d ∧
      Settings.ofText? t = (Settings.ofMembers? (otherMembers d.members)).map
        fun s => { s with defaultVersion := some name }) ∧
    ∀ (files : FileTree) (p : Path), files.Ready p text → Saved files p name t := by
  have hrewritten := rewritten_of_withDefaultVersion? ht
  exact ⟨hrewritten, hrewritten.settings, fun _ _ hready => saved_of_ready hready ht⟩

/-- A document with comments, keys with dots that lead into a table above another header, and tables
inside and outside of an array. -/
def sampleText : String :=
  "# runtimes\npower_shell_default_version = 'a' # old\nx.y = 2\n[c.a .x]\ny = 1\n[c]\n" ++
    "z = [1, 2]\na.b.e = 2\n[[u]]\n[c.w]\nk = \"v\"\n"

/-- A tree in which it is the text of a file. -/
def Trial.filed : FileTree :=
  (FileTree.empty []).plantFile ["x", "config.toml"] (Text.utf8Bytes sampleText) 0o600

theorem preferred_runtime_rewritten_sampleText :
    ∃ t d, withDefaultVersion? sampleText "b\"c" = some t ∧
      Rewritten sampleText "b\"c" t ∧ Document.ofText? sampleText = some d ∧
      Settings.ofText? t = (Settings.ofMembers? (otherMembers d.members)).map
        (fun s => { s with defaultVersion := some "b\"c" }) ∧
      Saved Trial.filed ⟨"/x/config.toml"⟩ "b\"c" t := by
  have hwritten : (withDefaultVersion? sampleText "b\"c").isSome = true := by decide +kernel
  obtain ⟨t, ht⟩ := Option.isSome_iff_exists.1 hwritten
  obtain ⟨hrewritten, ⟨d, hread, hsettings⟩, hsaved⟩ := preferred_runtime_rewritten ht
  refine ⟨t, d, ht, hrewritten, hread, hsettings, hsaved _ _ ⟨?_, by decide +kernel, ?_⟩⟩
  · exact ⟨["", "x"], "config.toml", by decide +kernel, by decide, by decide, by decide⟩
  · exact ⟨_, FileTree.createFolders_of_isFolder (by decide +kernel),
      .there rfl (Text.ofUtf8?_utf8Bytes sampleText)⟩

end SessionHost
