import ScriptEngine.Files.Actions

/-!
# Reading a new file

A file that is written where nothing was is found again under the same path, with what was written.
-/

namespace ScriptEngine

namespace FileTree

variable {tree : FileTree} {target : FilePath} {entry : FileEntry} {working : FilePath}
  {text : String}

theorem find?_insert_self (hroot : target ≠ []) :
    (tree.insert target entry).find? target = some entry := by
  obtain ⟨head, tail, rfl⟩ := List.exists_cons_of_ne_nil hroot
  simp [find?, insert]

theorem lookup_filter_of_ne {path : FilePath} (entries : List (FilePath × FileEntry))
    (hpath : path ≠ target) :
    (entries.filter fun other => other.1 != target).lookup path = entries.lookup path := by
  induction entries with
  | nil => rfl
  | cons head rest ih =>
      obtain ⟨place, content⟩ := head
      by_cases hplace : place = target
      · have hother : (path == place) = false := by
          rw [hplace]
          exact beq_false_of_ne hpath
        rw [List.filter_cons_of_neg (by simp [hplace]), ih, List.lookup_cons, hother]
      · rw [List.filter_cons_of_pos (by simp [hplace]), List.lookup_cons, List.lookup_cons, ih]

theorem find?_insert_of_ne {path : FilePath} (hpath : path ≠ target) :
    (tree.insert target entry).find? path = tree.find? path := by
  cases path with
  | nil => rfl
  | cons head tail =>
      have hother : ((head :: tail) == target) = false := beq_false_of_ne hpath
      simp only [find?, insert, List.lookup_cons, hother]
      exact lookup_filter_of_ne tree.entries hpath

/-- What stands anywhere stays when something is put where nothing was. -/
theorem find?_insert_of_some {path : FilePath} {found : FileEntry} (hnew : tree.find? target = none)
    (hfound : tree.find? path = some found) :
    (tree.insert target entry).find? path = some found := by
  rw [find?_insert_of_ne, hfound]
  rintro rfl
  rw [hnew] at hfound
  exact absurd hfound.symm (Option.some_ne_none found)

theorem enter_insert {directory next : FilePath} {part : String} (hnew : tree.find? target = none)
    (h : tree.enter directory part = .ok next) :
    (tree.insert target entry).enter directory part = .ok next := by
  unfold enter at h ⊢
  by_cases hhere : part = "."
  · rw [if_pos hhere] at h ⊢
    exact h
  by_cases hparent : part = ".."
  · rw [if_neg hhere, if_pos hparent] at h ⊢
    exact h
  by_cases hlong : longestName < part.utf8ByteSize
  · rw [if_neg hhere, if_neg hparent, if_pos hlong] at h ⊢
    exact h
  rw [if_neg hhere, if_neg hparent, if_neg hlong] at h ⊢
  cases hfound : tree.find? (directory ++ [part]) with
  | none =>
      rw [hfound] at h
      cases h
  | some found =>
      rw [hfound] at h
      rw [find?_insert_of_some hnew hfound]
      exact h

theorem walk_insert {directory last : FilePath} {parts : List String}
    (hnew : tree.find? target = none) (h : tree.walk directory parts = .ok last) :
    (tree.insert target entry).walk directory parts = .ok last := by
  induction parts generalizing directory with
  | nil => exact h
  | cons part parts ih =>
      unfold walk at h ih ⊢
      rw [List.foldlM_cons] at h ⊢
      cases hnext : tree.enter directory part with
      | error error =>
          rw [hnext] at h
          cases h
      | ok next =>
          rw [hnext] at h
          rw [enter_insert hnew hnext]
          exact ih h

theorem isDirectory_insert {path : FilePath} (hnew : tree.find? target = none)
    (h : tree.isDirectory path) : (tree.insert target entry).isDirectory path := by
  unfold isDirectory at h ⊢
  cases hfound : tree.find? path with
  | none =>
      rw [hfound] at h
      exact absurd h Bool.false_ne_true
  | some found =>
      rw [hfound] at h
      rw [find?_insert_of_some hnew hfound]
      exact h

theorem locate_insert {location : Location} (hnew : tree.find? target = none)
    (h : tree.locate working text = .ok location) :
    (tree.insert target entry).locate working text = .ok location := by
  unfold locate at h ⊢
  dsimp only at h ⊢
  by_cases hempty : text.isEmpty
  · rw [if_pos hempty] at h ⊢
    exact h
  by_cases hnul : text.contains (Char.ofNat 0)
  · rw [if_neg hempty, if_pos hnul] at h ⊢
    exact h
  rw [if_neg hempty, if_neg hnul] at h ⊢
  cases hparts : (pathParts text).reverse with
  | nil =>
      rw [hparts] at h
      exact h
  | cons last before =>
      rw [hparts] at h
      dsimp only at h ⊢
      cases hwalk : tree.walk (if text.toList.head? == some '/' then [] else working)
          before.reverse with
      | error error =>
          rw [hwalk] at h
          cases h
      | ok directory =>
          rw [hwalk] at h
          rw [walk_insert hnew hwalk]
          dsimp only [bind, Except.bind] at h ⊢
          by_cases hhere : last = "."
          · rw [if_pos hhere] at h ⊢
            exact h
          by_cases hparent : last = ".."
          · rw [if_neg hhere, if_pos hparent] at h ⊢
            exact h
          by_cases hlong : longestName < last.utf8ByteSize
          · rw [if_neg hhere, if_neg hparent, if_pos hlong] at h
            cases h
          rw [if_neg hhere, if_neg hparent, if_neg hlong] at h ⊢
          by_cases hdirectory : tree.isDirectory directory
          · have hstays := @isDirectory_insert tree target entry directory hnew hdirectory
            rw [if_neg (not_not_intro hdirectory)] at h
            rw [if_neg (not_not_intro hstays)]
            exact h
          · rw [if_pos hdirectory] at h
            cases h

theorem lookup_eq_ok {location : Location} {found : FileEntry}
    (hlocate : tree.locate working text = .ok location)
    (hfound : tree.find? location.path = some found) (hslashed : ¬ location.slashed) :
    tree.lookup working text = .ok (location.path, found) := by
  unfold lookup
  rw [hlocate]
  dsimp only [bind, Except.bind]
  rw [hfound]
  dsimp only
  rw [if_neg fun h => hslashed h.1]
  rfl

/-- A file that is written where nothing was is found under the same path. -/
theorem exists_lookup_of_write {time : Int} {bytes : ByteArray} {files : FileTree}
    (habsent : tree.isPresent working text = false)
    (h : tree.write working time text bytes = .ok files) :
    ∃ path, files.lookup working text = .ok (path, ⟨.file bytes, time⟩) := by
  unfold write writable at h
  cases hlocate : tree.locate working text with
  | error error =>
      rw [hlocate] at h
      cases h
  | ok location =>
      rw [hlocate] at h
      dsimp only [bind, Except.bind] at h
      by_cases hdirectory : location.slashed ∨ tree.isDirectory location.path
      · rw [if_pos hdirectory] at h
        cases h
      rw [if_neg hdirectory] at h
      cases h
      have hslashed : ¬ location.slashed := fun hslashed => hdirectory (.inl hslashed)
      have hnew : tree.find? location.path = none := by
        cases hfound : tree.find? location.path with
        | none => rfl
        | some found =>
            unfold isPresent at habsent
            rw [lookup_eq_ok hlocate hfound hslashed] at habsent
            cases habsent
      have hroot : location.path ≠ [] := by
        intro hroot
        rw [hroot] at hnew
        cases hnew
      exact ⟨location.path, lookup_eq_ok (locate_insert hnew hlocate) (find?_insert_self hroot)
        hslashed⟩

theorem fromUTF8?_toUTF8 (content : String) : String.fromUTF8? content.toUTF8 = some content := by
  unfold String.fromUTF8?
  rw [dif_pos (show content.toUTF8.IsValidUTF8 from content.isValidUTF8)]
  rfl

/-- **A new file.** What is written at a path where nothing was is read back from it. -/
theorem readText_write {time : Int} {content : String} {files : FileTree}
    (habsent : tree.isPresent working text = false)
    (h : tree.write working time text content.toUTF8 = .ok files) :
    files.readText working text = .ok content := by
  obtain ⟨path, hlookup⟩ := exists_lookup_of_write habsent h
  unfold readText read
  rw [hlookup]
  dsimp only [bind, Except.bind, pure, Except.pure]
  rw [fromUTF8?_toUTF8]

theorem isPresent_of_readText {content : String}
    (h : tree.readText working text = .ok content) : tree.isPresent working text = true := by
  unfold readText read at h
  unfold isPresent
  cases hlookup : tree.lookup working text with
  | error error =>
      rw [hlookup] at h
      cases h
  | ok found => rfl

end FileTree

end ScriptEngine
