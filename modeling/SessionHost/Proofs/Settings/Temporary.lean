import Mathlib.Data.List.Nodup
import SessionHost.Proofs.Files.Disks
import SessionHost.Proofs.Files.Renames
import SessionHost.Settings.Store

/-!
# Temporary files

A temporary file gets the first name of its kind that is not taken in its folder.  There are more of
these names than entries, so there is always one; and no file that has stepped aside for another one
has such a name.

Main definitions:

- `temporaryName`: the names.

Main results:

- Theorem `temporaryPath_new`: the path leads to a name that is not taken.
- Theorem `createTemporary_eq_ok`: a new temporary file is empty and was not there.
-/

namespace SessionHost

variable {d d' : Disk} {t : FileTree} {folder temporary : Path} {n m : Nat}

/-! ## Names of temporary files -/

/-- The name of a temporary file. -/
def temporaryName (n : Nat) : String := ".tmp" ++ Text.decimal n

/-- A temporary name has its number at the end. -/
theorem toList_temporaryName (n : Nat) :
    (temporaryName n).toList = ".tmp".toList ++ Nat.toDigits 10 n :=
  String.toList_append.trans (congrArg (".tmp".toList ++ ·) String.toList_ofList)

theorem isDigit_of_mem_digits {c : Char} (h : c ∈ Nat.toDigits 10 n) : c.isDigit = true :=
  Nat.isDigit_of_mem_toDigits (by decide) (by decide) h

/-- No slash is in a temporary name. -/
theorem slash_not_mem_temporaryName (n : Nat) : '/' ∉ (temporaryName n).toList := by
  rw [toList_temporaryName, List.mem_append, not_or]
  exact ⟨by decide, fun h => absurd (isDigit_of_mem_digits h) (by decide)⟩

/-- A temporary name is a name in a folder. -/
theorem isName_temporaryName (n : Nat) : IsName (temporaryName n) := by
  have hlength : 4 ≤ (temporaryName n).toList.length := by
    rw [toList_temporaryName, List.length_append]
    exact Nat.le_add_right _ _
  refine ⟨?_, ?_, ?_⟩ <;> intro heq <;> rw [heq] at hlength <;> revert hlength <;> decide

/-- Different numbers make different names. -/
theorem temporaryName_injective : Function.Injective temporaryName := by
  intro n m h
  have hdigits : Nat.toDigits 10 n = Nat.toDigits 10 m := by
    have hlist := congrArg String.toList h
    rwa [toList_temporaryName, toList_temporaryName, List.append_cancel_left_eq] at hlist
  rw [← Nat.ofDigitChars_ten_toDigits (n := n), hdigits, Nat.ofDigitChars_ten_toDigits]

/-- The path of a temporary file leads nowhere yet. -/
theorem temporaryPath_eq (folder : Path) (t : FileTree) :
    ∃ n, temporaryPath folder t = folder.join (temporaryName n) ∧
      (t.pathExists (folder.join (temporaryName n)) = false ∨
        ∀ m ≤ t.entries.length, t.pathExists (folder.join (temporaryName m)) = true) := by
  unfold temporaryPath
  simp only
  cases hfind : (List.range (t.entries.length + 1)).find?
      fun n => !t.pathExists (folder.join (".tmp" ++ Text.decimal n)) with
  | some n =>
    have hnew := List.find?_some hfind
    exact ⟨n, rfl, .inl (by simpa [temporaryName] using hnew)⟩
  | none =>
    refine ⟨0, rfl, .inr fun m hm => ?_⟩
    have htaken := List.find?_eq_none.1 hfind m (List.mem_range.2 (by omega))
    simpa [temporaryName] using htaken

/-- Not every name of a temporary file is taken: there are more of them than entries. -/
theorem exists_not_taken (t : FileTree) (place : Place) :
    ∃ n ≤ t.entries.length, t.at? (place ++ [temporaryName n]) = none := by
  by_contra hall
  simp only [not_exists, not_and] at hall
  have hsubset : (List.range (t.entries.length + 1)).map (fun n => place ++ [temporaryName n]) ⊆
      t.entries.map Prod.fst := by
    intro x hx
    obtain ⟨n, hn, rfl⟩ := List.mem_map.1 hx
    have htaken := hall n (Nat.lt_succ_iff.1 (List.mem_range.1 hn))
    rw [FileTree.at?_of_ne_nil (by simp), Option.map_eq_none_iff, List.find?_eq_none] at htaken
    simpa using htaken
  have hinjective : Function.Injective fun n => place ++ [temporaryName n] :=
    fun n m h => temporaryName_injective (by simpa using h)
  have hnodup := List.Nodup.map hinjective (List.nodup_range (n := t.entries.length + 1))
  have hlength := (hnodup.subperm hsubset).length_le
  simp only [List.length_map, List.length_range] at hlength
  omega

/-- The path of a new temporary file leads to a name in its folder that is not taken. -/
theorem temporaryPath_new {place : Place}
    (h : t.locate (temporaryPath folder t) = .ok (place, false)) :
    ∃ leading inside n, t.Lies (temporaryPath folder t) leading inside (temporaryName n) ∧
      place = inside ++ [temporaryName n] ∧ t.at? place = none := by
  obtain ⟨n, hpath, hwhy⟩ := temporaryPath_eq folder t
  obtain ⟨leading, hleading, -⟩ := Path.pieces_join folder
  obtain ⟨leading', inside, name, hlies, rfl⟩ := FileTree.exists_lies h
  rw [hpath] at hlies ⊢
  obtain ⟨rfl, rfl⟩ : leading' = leading ∧ name = temporaryName n := by
    have hpieces := hlies.pieces_eq
    rw [hleading _ (slash_not_mem_temporaryName n)] at hpieces
    simpa [eq_comm] using List.append_inj' hpieces rfl
  refine ⟨leading', inside, n, hlies, rfl, ?_⟩
  have hother (m : Nat) :
      t.Lies (folder.join (temporaryName m)) leading' inside (temporaryName m) :=
    hlies.neighbour (hleading _ (slash_not_mem_temporaryName m)) (isName_temporaryName m)
  -- A name whose path leads nowhere is not taken.
  have hnone (m : Nat) : t.pathExists (folder.join (temporaryName m)) = false ↔
      t.at? (inside ++ [temporaryName m]) = none := by
    rw [FileTree.pathExists_of_locate (hother m).locate_eq, Option.isSome_eq_false_iff,
      Option.isNone_iff_eq_none]
  rcases hwhy with hnew | hall
  · exact (hnone n).1 hnew
  · obtain ⟨m, hm, hfree⟩ := exists_not_taken t inside
    rw [← hnone m, hall m hm] at hfree
    cases hfree

/-- A new temporary file is empty, and was not there. -/
theorem createTemporary_eq_ok (h : createTemporary folder d = (.ok temporary, d')) :
    ∃ leading inside n, d.files.Lies temporary leading inside (temporaryName n) ∧
      d.files.at? (inside ++ [temporaryName n]) = none ∧
      d.files.Alters d'.files [inside ++ [temporaryName n]] ∧
      d'.files.Holds temporary (inside ++ [temporaryName n]) [] := by
  obtain ⟨t, hwrite, heq⟩ := DiskM.map_eq_ok.1 (DiskM.call_eq_ok h)
  obtain ⟨rfl, rfl⟩ := Prod.mk.inj heq
  obtain ⟨place, hlocate, halters, hholds⟩ := FileTree.alters_write hwrite
  obtain ⟨leading, inside, n, hlies, rfl, hnone⟩ := temporaryPath_new hlocate
  exact ⟨leading, inside, n, hlies, hnone, halters, hholds⟩

end SessionHost
