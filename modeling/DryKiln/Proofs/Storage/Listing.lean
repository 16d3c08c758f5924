-- What is listed. A directory of runs lists each run once whose program file it holds, if the path of
-- that file is not too long, and no other; with each run of the history comes the state that is
-- stored for it.
import DryKiln.Proofs.Storage.Places

namespace DryKiln

/-! ## Children of a directory -/

namespace FileTree

/-- What an entry is called in a directory, if it lies directly in it. -/
def childOf (place : Path) (e : Path × Entry) : Option (String × Entry) :=
  match e.1.reverse with
  | name :: up => if up.reverse = place then some (name, e.2) else none
  | [] => none

theorem children_eq (tree : FileTree) (place : Path) :
    tree.children place = tree.entries.filterMap (childOf place) := rfl

theorem childOf_eq_some_iff (place : Path) (e : Path × Entry) (name : String) (entry : Entry) :
    childOf place e = some (name, entry) ↔ e = (place ++ [name], entry) := by
  obtain ⟨key, value⟩ := e
  rcases List.eq_nil_or_concat key with rfl | ⟨up, last, rfl⟩
  · simp [childOf]
  · by_cases hup : up = place
    · simp [childOf, hup]
    · simp [childOf, hup]

theorem Sound.mem_children {tree : FileTree} (h : tree.Sound) (place : Path) (name : String)
    (entry : Entry) :
    (name, entry) ∈ tree.children place ↔ tree.get? (place ++ [name]) = some entry := by
  rw [children_eq, List.mem_filterMap]
  constructor
  · rintro ⟨e, he, hchild⟩
    rw [childOf_eq_some_iff] at hchild
    subst hchild
    exact (h.mem_iff (by simp) entry).mp he
  · intro hget
    exact ⟨_, (h.mem_iff (by simp) entry).mpr hget, (childOf_eq_some_iff _ _ _ _).mpr rfl⟩

theorem Sound.children_eq_nil_iff {tree : FileTree} (h : tree.Sound) (place : Path) :
    tree.children place = [] ↔ ∀ name, tree.get? (place ++ [name]) = none := by
  rw [List.eq_nil_iff_forall_not_mem]
  constructor
  · intro hnone name
    by_contra hthere
    obtain ⟨entry, hentry⟩ := Option.ne_none_iff_exists'.mp hthere
    exact hnone (name, entry) ((h.mem_children _ _ _).mpr hentry)
  · rintro hnone ⟨name, entry⟩ hmem
    cases (hnone name).symm.trans ((h.mem_children _ _ _).mp hmem)

/-- No two children of a directory have the same name. -/
theorem Sound.nodup_children {tree : FileTree} (h : tree.Sound) (place : Path) :
    (tree.children place).Pairwise fun first second => first.1 ≠ second.1 := by
  have hnodup : (tree.children place).Nodup := by
    rw [children_eq]
    refine List.Nodup.filterMap ?_ h.distinct.of_map
    rintro e d ⟨name, entry⟩ he hd
    rw [(childOf_eq_some_iff _ _ _ _).mp he, (childOf_eq_some_iff _ _ _ _).mp hd]
  refine hnodup.imp_of_mem ?_
  rintro ⟨name, entry⟩ ⟨name', entry'⟩ hfirst hsecond hne rfl
  rw [h.mem_children] at hfirst hsecond
  exact hne (by rw [Option.some.inj (hfirst.symm.trans hsecond)])

/-- A directory whose path is no bad text can be listed. -/
theorem list_of_directory {tree : FileTree} {path : String} {place : Path}
    (hpath : tree.resolve path = .ok place) (hget : tree.get? place = some .directory) :
    tree.list path = .ok (tree.children place) := by
  simp only [list, hpath, hget, bind, Except.bind]
  rfl

end FileTree

/-! ## Runs in a directory -/

namespace Storage

/-- The run whose program file an entry of a directory is. -/
def runOf (directory : String) (e : String × Entry) : Option String :=
  match e.2, splitExtension e.1 with
  | .file _ _, (stem, some extension) =>
    if extension = Artifact.program.extension ∧
        FileTree.badText (joinPath directory e.1) = none then some stem
    else none
  | _, _ => none

theorem runOf_eq_some_iff (directory name : String) (entry : Entry) (run : String) :
    runOf directory (name, entry) = some run ↔
      run ≠ "" ∧ name = Artifact.program.fileName run ∧
        (∃ id contents, entry = .file id contents) ∧
          FileTree.badText (joinPath directory (Artifact.program.fileName run)) = none := by
  cases entry with
  | directory => simp [runOf]
  | file id contents =>
    constructor
    · intro h
      cases hsplit : splitExtension name with
      | mk stem extension? =>
        cases extension? with
        | none => simp [runOf, hsplit] at h
        | some extension =>
          obtain ⟨⟨rfl, hbad⟩, rfl⟩ : (extension = Artifact.program.extension ∧
              FileTree.badText (joinPath directory name) = none) ∧ stem = run := by
            simpa [runOf, hsplit] using h
          obtain ⟨hname, hstem⟩ := eq_of_splitExtension hsplit
          refine ⟨hstem, hname, ⟨id, contents, rfl⟩, ?_⟩
          rwa [Artifact.fileName, ← hname]
    · rintro ⟨hrun, rfl, _, hbad⟩
      have hsplit : splitExtension (Artifact.program.fileName run) =
          (run, some Artifact.program.extension) := by
        refine splitExtension_append hrun (by decide) ?_
        intro hdots
        have hlength := Artifact.program.length_fileName run
        rw [Artifact.fileName, hdots] at hlength
        exact absurd hlength (by decide)
      simp [runOf, hsplit, hbad]

/-- The names of the runs that have their program file on a shelf. -/
def Listed (tree : FileTree) (base : Path) (shelf : Shelf) (run : String) : Prop :=
  run ≠ "" ∧ ∃ id contents, tree.get? (spot base shelf .program run) = some (.file id contents)

section Listings

variable {storage : Storage} {tree : FileTree} {base : Path} {shelf : Shelf} {run : String}

theorem Laid.resolve_directory (h : Laid storage tree base)
    (hbad : FileTree.badText (storage.directory shelf .program) = none) :
    tree.resolve (storage.directory shelf .program) = .ok (base ++ shelf.names .program) := by
  have hname : ∃ name, FileTree.ProperName name ∧ shelf.names .program = [name] ∧
      storage.directory shelf .program = joinPath storage.base name := by
    cases shelf with
    | running => exact ⟨_, proper_running, rfl, rfl⟩
    | history => exact ⟨_, proper_history, rfl, rfl⟩
  obtain ⟨name, hproper, hnames, hdirectory⟩ := hname
  rw [hdirectory] at hbad ⊢
  rw [tree.resolve_joinPath storage.base hproper.slashless hproper.notDots, hbad, h.based, hnames]
  simp [Except.bind, hproper.short]

/-- What a listing of a shelf holds, in whatever order. -/
structure Lists (storage : Storage) (tree : FileTree) (base : Path) (shelf : Shelf)
    (names : List String) : Prop where
  nodup : names.Nodup
  mem_iff : ∀ run, run ∈ names ↔
    Listed tree base shelf run ∧ storage.nameFault shelf .program run = none

/-- A file that is there has a name that is not too long, so at most its path can be. -/
theorem nameFault_of_there (h : tree.Sound) {artifact : Artifact} {entry : Entry}
    (hget : tree.get? (spot base shelf artifact run) = some entry) :
    storage.nameFault shelf artifact run =
      FileTree.badText (storage.file shelf artifact run) := by
  rw [nameFault, (h.named _ _ _ hget).short]
  cases FileTree.badText (storage.file shelf artifact run) <;> rfl

theorem Laid.runsIn_eq (h : Laid storage tree base)
    (hbad : FileTree.badText (storage.directory shelf .program) = none) :
    ∃ names, runsIn tree (storage.directory shelf .program) = .ok names ∧
      Lists storage tree base shelf names := by
  have hlist := FileTree.list_of_directory (h.resolve_directory hbad) (h.there shelf .program)
  have hperm := List.mergeSort_perm
    ((tree.children (base ++ shelf.names .program)).filterMap
      (runOf (storage.directory shelf .program))) fun a b => a ≤ b
  refine ⟨_, ?_, hperm.nodup_iff.mpr ?_, fun run => hperm.mem_iff.trans ?_⟩
  · simp only [runsIn, hlist, stored, Except.mapError, bind, Except.bind]
    rfl
  · rw [List.Nodup, List.pairwise_filterMap]
    refine (h.sound.nodup_children _).imp ?_
    rintro ⟨name, entry⟩ ⟨name', entry'⟩ hne run hrun run' hrun' rfl
    obtain ⟨_, hname, _⟩ := (runOf_eq_some_iff _ _ _ _).mp hrun
    obtain ⟨_, hname', _⟩ := (runOf_eq_some_iff _ _ _ _).mp hrun'
    exact hne (hname.trans hname'.symm)
  · rw [List.mem_filterMap]
    constructor
    · rintro ⟨⟨name, entry⟩, hmem, hrun⟩
      obtain ⟨hempty, rfl, ⟨id, contents, rfl⟩, hpath⟩ := (runOf_eq_some_iff _ _ _ _).mp hrun
      have hget := (h.sound.mem_children _ _ _).mp hmem
      refine ⟨⟨hempty, id, contents, hget⟩, ?_⟩
      rw [nameFault_of_there h.sound hget, file_eq, hpath]
    · rintro ⟨⟨hempty, id, contents, hget⟩, hfits⟩
      rw [nameFault_of_there h.sound hget, file_eq] at hfits
      exact ⟨_, (h.sound.mem_children _ _ _).mpr hget,
        (runOf_eq_some_iff _ _ _ _).mpr ⟨hempty, rfl, ⟨id, contents, rfl⟩, hfits⟩⟩

theorem runsIn_of_badText {fault : FileFault}
    (hbad : FileTree.badText (storage.directory shelf .program) = some fault) :
    runsIn tree (storage.directory shelf .program) = .error (.file fault) := by
  simp only [runsIn, FileTree.list, FileTree.resolve, hbad, stored, Except.mapError, bind,
    Except.bind]

theorem Laid.lists_of_ok (h : Laid storage tree base) {names : List String}
    (hok : runsIn tree (storage.directory shelf .program) = .ok names) :
    Lists storage tree base shelf names := by
  cases hbad : FileTree.badText (storage.directory shelf .program) with
  | some fault =>
    rw [runsIn_of_badText hbad] at hok
    cases hok
  | none =>
    obtain ⟨names', hnames, hlists⟩ := h.runsIn_eq hbad
    cases hnames.symm.trans hok
    exact hlists

/-! ## The history -/

theorem badText_directory_of_fits {artifact : Artifact} (hrun : '/' ∉ run.toList)
    (hfits : storage.nameFault shelf artifact run = none) :
    FileTree.badText (storage.directory shelf artifact) = none := by
  refine FileTree.badText_directory (Artifact.slash_not_mem_fileName hrun artifact)
    (storage.directory_ne_empty shelf artifact) ?_
  rw [← file_eq]
  exact badText_of_nameFault hfits

theorem Laid.archivedState?_eq (h : Laid storage tree base) (hrun : '/' ∉ run.toList)
    (hfits : storage.nameFault .history .state run = none) {id : Nat} {state : RunState}
    (hget : tree.get? (spot base .history .state run) = some (.file id (.text state.label))) :
    storage.archivedState? tree run = some state := by
  have hread : tree.readText (storage.archiveFile .state run) = .ok state.label :=
    FileTree.readText_of_text (h.resolve_of_fits hrun .history .state hfits) hget
  have htext : RunState.ofText state.label = state := by
    cases state <;> decide
  rw [archivedState?, hread]
  exact congrArg some htext

/-- The history tells once of a run, and that it ended in this state. -/
def Tells (storage : Storage) (tree : FileTree) (run : String) (state : RunState) : Prop :=
  ∃ entries, storage.listHistory tree = .ok entries ∧
    entries.filter (fun entry => entry.1 = run) = [(run, some state)]

theorem Laid.tells (h : Laid storage tree base) (hrun : '/' ∉ run.toList) (hempty : run ≠ "")
    (hfits : ∀ artifact, storage.nameFault .history artifact run = none)
    {id id' : Nat} {contents : Contents} {state : RunState}
    (hprogram : tree.get? (spot base .history .program run) = some (.file id contents))
    (hstate : tree.get? (spot base .history .state run) = some (.file id' (.text state.label))) :
    Tells storage tree run state := by
  obtain ⟨names, hnames, hnodup, hmem⟩ :=
    h.runsIn_eq (badText_directory_of_fits hrun (hfits .program))
  have hlisted : run ∈ names := (hmem run).mpr ⟨⟨hempty, id, contents, hprogram⟩, hfits .program⟩
  have hruns : runsIn tree storage.historyDir = .ok names := hnames
  refine ⟨names.map fun name => (name, storage.archivedState? tree name), ?_, ?_⟩
  · simp only [listHistory, hruns, bind, Except.bind]
    rfl
  · have hone : names.filter (fun name => name = run) = [run] := by
      have hcount := List.filter_eq (l := names) run
      rw [List.count_eq_one_of_mem hnodup hlisted] at hcount
      simpa [eq_comm] using hcount
    rw [List.filter_map]
    simp only [Function.comp_def]
    rw [hone]
    simp [h.archivedState?_eq hrun (hfits .state) hstate]

end Listings

end Storage
end DryKiln
