-- How directories are made. A directory whose parent is there and whose place is free is put at
-- its place, and the tree stays one that can be on a disk; what is missing above it is made first.
import DryKiln.Proofs.Files.Names
import DryKiln.Proofs.Files.Tree

namespace DryKiln
namespace FileTree

section Making

variable {tree above : FileTree} {place last directory : Path} {names : List String}
  {path name : String}

/-! ## Where names lead -/

theorem get?_nil (tree : FileTree) : tree.get? [] = some .directory := rfl

/-- The parent of a directory is a directory. -/
theorem Sound.directory_dropLast (h : tree.Sound) (hplace : tree.get? place = some .directory) :
    tree.get? place.dropLast = some .directory := by
  rcases List.eq_nil_or_concat place with rfl | ⟨up, name, rfl⟩
  · exact hplace
  · rw [List.concat_eq_append] at hplace ⊢
    rw [List.dropLast_concat]
    exact h.above _ _ _ hplace

theorem Sound.directory_of_walk (h : tree.Sound) (hplace : tree.get? place = some .directory)
    (hwalk : tree.walk place names = .ok last) : tree.get? last = some .directory := by
  induction names generalizing place with
  | nil => exact Except.ok.inj hwalk ▸ hplace
  | cons name names ih =>
    rw [walk] at hwalk
    by_cases hskip : name = "" ∨ name = "."
    · rw [if_pos hskip] at hwalk
      exact ih hplace hwalk
    by_cases hup : name = ".."
    · rw [if_neg hskip, if_pos hup] at hwalk
      exact ih (h.directory_dropLast hplace) hwalk
    rw [if_neg hskip, if_neg hup] at hwalk
    split at hwalk
    · cases hwalk
    · split at hwalk
      · cases hwalk
      · cases hwalk
      · rename_i hget
        exact ih hget hwalk

/-- Names that lead somewhere hold no NUL. -/
theorem Sound.nulless_of_walk (h : tree.Sound) (hwalk : tree.walk place names = .ok last) :
    ∀ name ∈ names, '\x00' ∉ name.toList := by
  induction names generalizing place with
  | nil => simp
  | cons name names ih =>
    rw [List.forall_mem_cons]
    rw [walk] at hwalk
    by_cases hskip : name = "" ∨ name = "."
    · rw [if_pos hskip] at hwalk
      refine ⟨?_, ih hwalk⟩
      rcases hskip with rfl | rfl <;> decide
    by_cases hup : name = ".."
    · rw [if_neg hskip, if_pos hup] at hwalk
      exact ⟨by rw [hup]; decide, ih hwalk⟩
    rw [if_neg hskip, if_neg hup] at hwalk
    split at hwalk
    · cases hwalk
    · split at hwalk
      · cases hwalk
      · cases hwalk
      · rename_i hget
        exact ⟨(h.named _ _ _ hget).nulless, ih hwalk⟩

/-- The names of a path that go somewhere. -/
def stepsOf (path : String) : List String :=
  (pathNames path).filter fun name => name != "" && name != "."

theorem walk_stepsOf (tree : FileTree) (path : String) :
    tree.walk [] (stepsOf path) = tree.walk [] (pathNames path) := by
  have hskip : ∀ (place : Path) (names : List String),
      tree.walk place (names.filter fun name => name != "" && name != ".") =
        tree.walk place names := by
    intro place names
    induction names generalizing place with
    | nil => rfl
    | cons name names ih =>
      by_cases hname : name = "" ∨ name = "."
      · rw [List.filter_cons_of_neg (by simpa [imp_iff_not_or] using hname), walk, if_pos hname, ih]
      · rw [List.filter_cons_of_pos (by simpa using hname), walk, walk]
        simp only [ih]
  exact hskip [] _

theorem stepsOf_joinPath (directory : String) (h : ProperName name) :
    stepsOf (joinPath directory name) = stepsOf directory ++ [name] := by
  obtain ⟨hempty, hdot, _⟩ := isDots_eq_false_iff.mp h.notDots
  have hself : [name].filter (fun name => name != "" && name != ".") = [name] := by
    simp [hempty, hdot]
  unfold stepsOf
  rw [joinPath_of_not_mem directory h.slashless]
  by_cases hnone : directory = ""
  · subst hnone
    rw [if_pos (by simp), String.empty_append, pathNames_of_not_mem h.slashless, hself]
    rfl
  by_cases hslash : directory.toList.getLast? = some '/'
  · obtain ⟨front, rfl⟩ := exists_of_getLast?_slash hslash
    rw [if_pos (by simp), pathNames_append_slash, pathNames_of_not_mem h.slashless,
      pathNames_slash, List.filter_append, List.filter_append, hself]
    simp
  · rw [if_neg (by simp [hnone, hslash]), pathNames_append_slash,
      pathNames_of_not_mem h.slashless, List.filter_append, hself]

/-- A way that is missing its last directory leads nowhere. -/
theorem walk_of_free (hwalk : tree.walk [] names = .ok directory) (proper : ProperName name)
    (free : tree.get? (directory ++ [name]) = none) :
    tree.walk [] (names ++ [name]) = .error .notFound := by
  obtain ⟨hempty, hdot, hdots⟩ := isDots_eq_false_iff.mp proper.notDots
  rw [walk_append, hwalk]
  simp [Except.bind, walk, hempty, hdot, hdots, proper.short, free]

theorem walk_of_there (hwalk : tree.walk [] names = .ok directory) (proper : ProperName name)
    (there : tree.get? (directory ++ [name]) = some .directory) :
    tree.walk [] (names ++ [name]) = .ok (directory ++ [name]) := by
  obtain ⟨hempty, hdot, hdots⟩ := isDots_eq_false_iff.mp proper.notDots
  rw [walk_append, hwalk]
  simp [Except.bind, walk, hempty, hdot, hdots, proper.short, there]

/-! ## Putting a directory at a place -/

/-- A directory with nothing in it keeps a tree one that can be on a disk. -/
theorem Sound.put_directory (h : tree.Sound) (parent : tree.get? directory = some .directory)
    (proper : ProperName name) (free : tree.get? (directory ++ [name]) = none) :
    (tree.put (directory ++ [name]) .directory).Sound := by
  have hplace : directory ++ [name] ≠ [] := by simp
  have hget := get?_put tree hplace .directory
  obtain ⟨hdistinct, hrooted⟩ := h.put_entries hplace .directory
  have hdirectory : ∀ p, tree.get? p = some .directory →
      (tree.put (directory ++ [name]) .directory).get? p = some .directory := by
    intro p hp
    rw [hget, hp]
    split <;> rfl
  -- what is a file now has been one before
  have hfile : ∀ p id c, (tree.put (directory ++ [name]) .directory).get? p = some (.file id c) →
      tree.get? p = some (.file id c) := by
    intro p id c hp
    rw [hget] at hp
    split at hp
    · cases hp
    · exact hp
  refine ⟨hdistinct, hrooted, ?_, ?_, ?_, ?_⟩
  · intro path last entry hpath
    apply hdirectory
    by_cases heq : path ++ [last] = directory ++ [name]
    · obtain ⟨rfl, _⟩ := List.append_inj' heq rfl
      exact parent
    · rw [hget, if_neg heq] at hpath
      exact h.above _ _ _ hpath
  · intro path last entry hpath
    by_cases heq : path ++ [last] = directory ++ [name]
    · obtain ⟨_, hlast⟩ := List.append_inj' heq rfl
      cases hlast
      exact proper
    · rw [hget, if_neg heq] at hpath
      exact h.named _ _ _ hpath
  · intro p q id c d hp hq
    exact h.identified _ _ _ _ _ (hfile _ _ _ hp) (hfile _ _ _ hq)
  · intro p id c hp
    exact h.numbered _ _ _ (hfile _ _ _ hp)

/-! ## Making directories -/

theorem makeDirectory_of_free (hwalk : tree.walk [] names = .ok directory)
    (proper : ProperName name) (free : tree.get? (directory ++ [name]) = none) :
    tree.makeDirectory (names ++ [name]) = .ok (tree.put (directory ++ [name]) .directory) := by
  simp only [makeDirectory, placeOf, List.getLast?_concat, List.dropLast_concat, proper.notDots,
    hwalk, bind, Except.bind, Bool.false_eq_true, if_false, proper.short, pure, Except.pure, free]

theorem makeDirectory_of_missing (hwalk : tree.walk [] names = .error .notFound)
    (proper : ProperName name) : tree.makeDirectory (names ++ [name]) = .error .notFound := by
  simp only [makeDirectory, placeOf, List.getLast?_concat, List.dropLast_concat, proper.notDots,
    hwalk, bind, Except.bind, Bool.false_eq_true, if_false]

theorem makeAll_of_free (hwalk : tree.walk [] names = .ok directory) (proper : ProperName name)
    (free : tree.get? (directory ++ [name]) = none) :
    tree.makeAll (names ++ [name]).reverse = .ok (tree.put (directory ++ [name]) .directory) := by
  rw [List.reverse_concat, makeAll]
  simp only [List.reverse_cons, List.reverse_reverse, makeDirectory_of_free hwalk proper free]

/-- What is missing above a directory is made before it. -/
theorem makeAll_of_missing (hwalk : tree.walk [] names = .error .notFound)
    (habove : tree.makeAll names.reverse = .ok above) (hthere : above.walk [] names = .ok directory)
    (proper : ProperName name) (free : above.get? (directory ++ [name]) = none) :
    tree.makeAll (names ++ [name]).reverse = .ok (above.put (directory ++ [name]) .directory) := by
  rw [List.reverse_concat, makeAll]
  simp only [List.reverse_cons, List.reverse_reverse, makeDirectory_of_missing hwalk proper,
    habove, makeDirectory_of_free hthere proper free, bind, Except.bind, pure, Except.pure]

theorem makeDirectories_of_free (hbad : badText path = none)
    (hpath : stepsOf path = names ++ [name]) (hwalk : tree.walk [] names = .ok directory)
    (proper : ProperName name) (free : tree.get? (directory ++ [name]) = none) :
    tree.makeDirectories path = .ok (tree.put (directory ++ [name]) .directory) := by
  have hall := makeAll_of_free hwalk proper free
  rw [← hpath] at hall
  rw [makeDirectories, hbad]
  exact hall

theorem makeDirectories_of_missing (hbad : badText path = none)
    (hpath : stepsOf path = names ++ [name]) (hwalk : tree.walk [] names = .error .notFound)
    (habove : tree.makeAll names.reverse = .ok above) (hthere : above.walk [] names = .ok directory)
    (proper : ProperName name) (free : above.get? (directory ++ [name]) = none) :
    tree.makeDirectories path = .ok (above.put (directory ++ [name]) .directory) := by
  have hall := makeAll_of_missing hwalk habove hthere proper free
  rw [← hpath] at hall
  rw [makeDirectories, hbad]
  exact hall

end Making

end FileTree
end DryKiln
