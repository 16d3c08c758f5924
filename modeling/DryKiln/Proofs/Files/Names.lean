-- The laws of path texts. A name without a slash that is joined to a directory is the last name of
-- the path, and the names before it lead where the directory leads; the last dot of a name that has
-- a stem is where its extension begins.
import DryKiln.Files.Tree

namespace DryKiln

/-! ## Pieces between slashes -/

theorem splitSlash_ne_nil (cs : List Char) : splitSlash cs ≠ [] := by
  cases cs with
  | nil => simp [splitSlash]
  | cons c cs =>
    unfold splitSlash
    split
    · simp
    · split <;> simp

theorem splitSlash_of_not_mem {cs : List Char} (h : '/' ∉ cs) : splitSlash cs = [cs] := by
  induction cs with
  | nil => rfl
  | cons c cs ih =>
    simp only [List.mem_cons, not_or] at h
    simp [splitSlash, ih h.2, Ne.symm h.1]

theorem splitSlash_append_slash (front back : List Char) :
    splitSlash (front ++ '/' :: back) = splitSlash front ++ splitSlash back := by
  induction front with
  | nil =>
    obtain ⟨piece, pieces, h⟩ := List.exists_cons_of_ne_nil (splitSlash_ne_nil back)
    simp [splitSlash, h]
  | cons c front ih =>
    obtain ⟨piece, pieces, h⟩ := List.exists_cons_of_ne_nil (splitSlash_ne_nil front)
    rw [h] at ih
    simp only [List.cons_append, splitSlash, ih, h]
    split <;> rfl

theorem pathNames_of_not_mem {name : String} (h : '/' ∉ name.toList) : pathNames name = [name] := by
  simp [pathNames, splitSlash_of_not_mem h]

theorem pathNames_append_slash (front back : String) :
    pathNames (front ++ "/" ++ back) = pathNames front ++ pathNames back := by
  have hslash : (front ++ "/" ++ back).toList = front.toList ++ '/' :: back.toList := by simp
  rw [pathNames, hslash, splitSlash_append_slash, List.map_append]
  rfl

theorem exists_mem_splitSlash {cs : List Char} {c : Char} (hc : c ∈ cs) (hslash : c ≠ '/') :
    ∃ piece ∈ splitSlash cs, c ∈ piece := by
  induction cs with
  | nil => cases hc
  | cons first cs ih =>
    obtain ⟨next, pieces, hsplit⟩ := List.exists_cons_of_ne_nil (splitSlash_ne_nil cs)
    simp only [splitSlash, hsplit] at ih ⊢
    rcases List.mem_cons.mp hc with rfl | hc
    · simp [hslash]
    · obtain ⟨piece, hpiece, hmem⟩ := ih hc
      split
      · exact ⟨piece, List.mem_cons_of_mem _ hpiece, hmem⟩
      · rcases List.mem_cons.mp hpiece with rfl | hpiece
        · exact ⟨_, List.mem_cons_self, List.mem_cons_of_mem _ hmem⟩
        · exact ⟨piece, List.mem_cons_of_mem _ hpiece, hmem⟩

/-- A character of a path is in one of its names, unless it is a slash. -/
theorem exists_mem_pathNames {path : String} {c : Char} (hc : c ∈ path.toList) (hslash : c ≠ '/') :
    ∃ name ∈ pathNames path, c ∈ name.toList := by
  obtain ⟨piece, hpiece, hmem⟩ := exists_mem_splitSlash hc hslash
  exact ⟨_, List.mem_map_of_mem hpiece, by simpa using hmem⟩

theorem pathNames_slash (front : String) : pathNames (front ++ "/") = pathNames front ++ [""] := by
  have hjoin := pathNames_append_slash front ""
  rwa [String.append_empty] at hjoin

/-! ## Joined paths -/

theorem joinPath_of_not_mem (directory : String) {name : String} (h : '/' ∉ name.toList) :
    joinPath directory name =
      if directory = "" || directory.toList.getLast? = some '/' then directory ++ name
      else directory ++ "/" ++ name := by
  unfold joinPath
  split
  · rename_i rest heq
    simp [heq] at h
  · rfl

/-- A text that ends in a slash. -/
theorem exists_of_getLast?_slash {text : String} (h : text.toList.getLast? = some '/') :
    ∃ front, text = front ++ "/" := by
  obtain ⟨front, hfront⟩ := List.getLast?_eq_some_iff.mp h
  refine ⟨String.ofList front, ?_⟩
  rw [← String.toList_inj, hfront]
  simp

theorem joinPath_ne_empty (directory : String) {name : String} (h : '/' ∉ name.toList)
    (hname : name ≠ "") : joinPath directory name ≠ "" := by
  intro heq
  rw [joinPath_of_not_mem directory h] at heq
  have hlist := congrArg String.toList heq
  have hnil : name.toList ≠ [] := fun hnil => hname (by rw [← String.toList_inj, hnil]; rfl)
  split at hlist <;> simp [hnil] at hlist

namespace FileTree

theorem walk_append (tree : FileTree) (place : Path) (first second : List String) :
    tree.walk place (first ++ second) =
      (tree.walk place first).bind fun p => tree.walk p second := by
  induction first generalizing place with
  | nil => rfl
  | cons name names ih =>
    simp only [List.cons_append, walk]
    split
    · exact ih place
    · split
      · exact ih _
      · split
        · rfl
        · split
          · rfl
          · rfl
          · exact ih _

theorem walk_empty_name (tree : FileTree) (place : Path) : tree.walk place [""] = .ok place := by
  simp [walk]

end FileTree

/-- A name that is joined to a directory comes last; the names before it lead to the directory. -/
theorem pathNames_joinPath (directory : String) {name : String} (h : '/' ∉ name.toList) :
    ∃ names, pathNames (joinPath directory name) = names ++ [name] ∧
      ∀ tree : FileTree, tree.walk [] names = tree.walk [] (pathNames directory) := by
  rw [joinPath_of_not_mem directory h]
  by_cases hempty : directory = ""
  · subst hempty
    refine ⟨[], ?_, fun tree => ?_⟩
    · simp [pathNames_of_not_mem h]
    · rw [pathNames_of_not_mem (by simp), FileTree.walk_empty_name]
      rfl
  by_cases hslash : directory.toList.getLast? = some '/'
  · obtain ⟨front, rfl⟩ := exists_of_getLast?_slash hslash
    refine ⟨pathNames front, ?_, fun tree => ?_⟩
    · rw [if_pos (by simp), pathNames_append_slash, pathNames_of_not_mem h]
    · have hnames : pathNames (front ++ "/") = pathNames front ++ [""] := by
        have hnone : pathNames "" = [""] := rfl
        have hjoin := pathNames_append_slash front ""
        rwa [String.append_empty, hnone] at hjoin
      rw [hnames, FileTree.walk_append]
      cases tree.walk [] (pathNames front) with
      | error fault => rfl
      | ok place => exact (tree.walk_empty_name place).symm
  · refine ⟨pathNames directory, ?_, fun tree => rfl⟩
    rw [if_neg (by simp [hempty, hslash]), pathNames_append_slash, pathNames_of_not_mem h]

namespace FileTree

/-! ## Resolving -/

theorem isDots_eq_false_iff {name : String} :
    isDots name = false ↔ name ≠ "" ∧ name ≠ "." ∧ name ≠ ".." := by
  simp [isDots, and_assoc]

/-- The place of a file in a directory, or why it has none. -/
theorem resolve_joinPath (tree : FileTree) (directory : String) {name : String}
    (hslash : '/' ∉ name.toList) (hdots : isDots name = false) :
    tree.resolve (joinPath directory name) =
      match badText (joinPath directory name) with
      | some fault => .error fault
      | none => (tree.walk [] (pathNames directory)).bind fun place =>
          if tooLong name then .error .nameTooLong else .ok (place ++ [name]) := by
  obtain ⟨names, hnames, hwalk⟩ := pathNames_joinPath directory hslash
  unfold resolve
  cases badText (joinPath directory name) with
  | some fault => rfl
  | none =>
    simp only [placeOf, hnames, List.getLast?_concat, List.dropLast_concat, hdots, hwalk]
    cases tree.walk [] (pathNames directory) with
    | error fault => rfl
    | ok place =>
      simp only [bind, Except.bind, Bool.false_eq_true, if_false]
      split <;> rfl

/-- A path that is no bad text has no bad text in front of its last name. -/
theorem badText_directory {directory name : String} (hslash : '/' ∉ name.toList)
    (hdirectory : directory ≠ "") (h : badText (joinPath directory name) = none) :
    badText directory = none := by
  have hpath : ∃ more, joinPath directory name = directory ++ more := by
    rw [joinPath_of_not_mem directory hslash]
    split
    · exact ⟨name, rfl⟩
    · exact ⟨"/" ++ name, by rw [String.append_assoc]⟩
  obtain ⟨more, hmore⟩ := hpath
  rw [hmore] at h
  unfold badText at h ⊢
  by_cases hnul : '\x00' ∈ directory.toList
  · simp [hnul] at h
  by_cases hnulMore : '\x00' ∈ more.toList
  · simp [hnul, hnulMore] at h
  have hsize : directory.utf8ByteSize + more.utf8ByteSize ≤ 4095 := by
    simpa [hnul, hnulMore, hdirectory] using h
  have hshort : ¬4095 < directory.utf8ByteSize := by omega
  simp [hnul, hdirectory, hshort]

end FileTree

/-! ## Extensions -/

/-- A name is split at its last dot, if something stands in front of that. -/
theorem splitExtension_append {stem extension : String} (hstem : stem ≠ "")
    (hdot : '.' ∉ extension.toList) (hname : stem ++ "." ++ extension ≠ "..") :
    splitExtension (stem ++ "." ++ extension) = (stem, some extension) := by
  have hlist : (stem ++ "." ++ extension).toList.reverse =
      extension.toList.reverse ++ '.' :: stem.toList.reverse := by simp
  have hall : ∀ c ∈ extension.toList.reverse, (c != '.') = true := by
    intro c hc
    simp only [List.mem_reverse] at hc
    simp only [bne_iff_ne, ne_eq]
    rintro rfl
    exact hdot hc
  have hne : stem.toList.reverse ≠ [] := by
    intro h
    exact hstem (by rw [← String.toList_inj, List.reverse_eq_nil_iff.mp h]; rfl)
  simp only [splitExtension, hlist, List.takeWhile_append_of_pos hall,
    List.dropWhile_append_of_pos hall]
  simp [hne, hname]

theorem eq_of_splitExtension {name stem extension : String}
    (h : splitExtension name = (stem, some extension)) :
    name = stem ++ "." ++ extension ∧ stem ≠ "" := by
  unfold splitExtension at h
  simp only at h
  split at h
  · cases h
  · rename_i c front hdrop
    split at h
    · cases h
    · rename_i hfront
      simp only [Prod.mk.injEq, Option.some.injEq] at h
      obtain ⟨rfl, rfl⟩ := h
      simp only [Bool.or_eq_true, decide_eq_true_eq, not_or] at hfront
      have hdot : c = '.' := by
        have hhead := List.head?_dropWhile_not (· != '.') name.toList.reverse
        simpa [hdrop] using hhead
      have hwhole := List.takeWhile_append_dropWhile (p := (· != '.')) (l := name.toList.reverse)
      rw [hdrop, hdot] at hwhole
      refine ⟨?_, ?_⟩
      · rw [← String.toList_inj, ← List.reverse_inj]
        refine hwhole.symm.trans ?_
        simp
      · intro hempty
        have := congrArg String.toList hempty
        simp [hfront.1] at this

end DryKiln
