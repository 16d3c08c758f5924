-- A storage that is opened on a directory with nothing in it. Its directories are made and no file
-- is in them. They hold the files of every run whose name is short enough, if the path of the base
-- leaves room for them.
import DryKiln.Proofs.Files.Making
import DryKiln.Proofs.Storage.Sweep

namespace DryKiln
namespace Storage

/-! ## Names that fit -/

/-- A name under which the files of a run can be held: with the longest extension it has no more
bytes than a file system gives to a name. -/
structure Storable (run : String) : Prop where
  nonempty : run ≠ ""
  slashless : '/' ∉ run.toList
  nulless : '\x00' ∉ run.toList
  short : run.utf8ByteSize ≤ 250

instance (run : String) : Decidable (Storable run) :=
  decidable_of_iff (run ≠ "" ∧ '/' ∉ run.toList ∧ '\x00' ∉ run.toList ∧ run.utf8ByteSize ≤ 250)
    ⟨fun ⟨h₁, h₂, h₃, h₄⟩ => ⟨h₁, h₂, h₃, h₄⟩, fun ⟨h₁, h₂, h₃, h₄⟩ => ⟨h₁, h₂, h₃, h₄⟩⟩

/-- A base whose path leaves room for the longest path below it, that of a stored state. -/
structure Ample (storage : Storage) : Prop where
  nulless : '\x00' ∉ storage.base.toList
  short : storage.base.utf8ByteSize ≤ 3825

section Names

variable {storage : Storage} {run : String}

theorem nul_not_mem_joinPath {path name : String} (hpath : '\x00' ∉ path.toList)
    (hname : '\x00' ∉ name.toList) (hslash : '/' ∉ name.toList) :
    '\x00' ∉ (joinPath path name).toList := by
  rw [joinPath_of_not_mem path hslash]
  split <;> simp [hpath, hname]

theorem size_joinPath_le (path : String) {name : String} (hslash : '/' ∉ name.toList) :
    (joinPath path name).utf8ByteSize ≤ path.utf8ByteSize + 1 + name.utf8ByteSize := by
  have hone : "/".utf8ByteSize = 1 := by decide
  rw [joinPath_of_not_mem path hslash]
  split <;> simp only [String.utf8ByteSize_append] <;> omega

theorem le_size_joinPath (path : String) {name : String} (hslash : '/' ∉ name.toList) :
    path.utf8ByteSize + name.utf8ByteSize ≤ (joinPath path name).utf8ByteSize := by
  rw [joinPath_of_not_mem path hslash]
  split <;> simp only [String.utf8ByteSize_append] <;> omega

theorem badText_eq_none {path : String} (hnul : '\x00' ∉ path.toList) (hpath : path ≠ "")
    (hshort : path.utf8ByteSize ≤ 4095) : FileTree.badText path = none := by
  have hnot : ¬ 4095 < path.utf8ByteSize := by omega
  simp [FileTree.badText, hnul, hpath, hnot]

theorem badText_of_long {path : String} (hnul : '\x00' ∉ path.toList)
    (hlong : 4095 < path.utf8ByteSize) : FileTree.badText path = some .nameTooLong := by
  have hpath : path ≠ "" := by
    rintro rfl
    exact absurd hlong (by decide)
  simp [FileTree.badText, hnul, hpath, hlong]

theorem nul_not_mem_directory (hnul : '\x00' ∉ storage.base.toList) (shelf : Shelf)
    (artifact : Artifact) : '\x00' ∉ (storage.directory shelf artifact).toList := by
  have hhistory : '\x00' ∉ storage.historyDir.toList :=
    nul_not_mem_joinPath hnul proper_history.nulless proper_history.slashless
  cases shelf with
  | running => exact nul_not_mem_joinPath hnul proper_running.nulless proper_running.slashless
  | history =>
    cases artifact with
    | program => exact hhistory
    | state => exact nul_not_mem_joinPath hhistory proper_status.nulless proper_status.slashless
    | log => exact nul_not_mem_joinPath hhistory proper_logs.nulless proper_logs.slashless

theorem size_directory_le (storage : Storage) (shelf : Shelf) (artifact : Artifact) :
    (storage.directory shelf artifact).utf8ByteSize + artifact.extension.utf8ByteSize ≤
      storage.base.utf8ByteSize + 18 := by
  have hhistory : (storage.directory .history .program).utf8ByteSize ≤
      storage.base.utf8ByteSize + 1 + 7 := size_joinPath_le storage.base proper_history.slashless
  have hextension : artifact.extension.utf8ByteSize ≤ 4 := by cases artifact <;> decide
  cases shelf with
  | running =>
    have hrunning : (storage.directory .running artifact).utf8ByteSize ≤
        storage.base.utf8ByteSize + 1 + 7 := size_joinPath_le storage.base proper_running.slashless
    omega
  | history =>
    cases artifact with
    | program => omega
    | state =>
      have hstate : (storage.directory .history .state).utf8ByteSize ≤
          (storage.directory .history .program).utf8ByteSize + 1 + 6 :=
        size_joinPath_le storage.historyDir proper_status.slashless
      have hthree : Artifact.state.extension.utf8ByteSize = 3 := by decide
      omega
    | log =>
      have hlog : (storage.directory .history .log).utf8ByteSize ≤
          (storage.directory .history .program).utf8ByteSize + 1 + 4 :=
        size_joinPath_le storage.historyDir proper_logs.slashless
      omega

theorem badText_directory (hnul : '\x00' ∉ storage.base.toList)
    (hshort : storage.base.utf8ByteSize + 18 ≤ 4095) (shelf : Shelf) (artifact : Artifact) :
    FileTree.badText (storage.directory shelf artifact) = none := by
  have hsize := storage.size_directory_le shelf artifact
  exact badText_eq_none (nul_not_mem_directory hnul shelf artifact)
    (storage.directory_ne_empty shelf artifact) (by omega)

theorem Ample.badText_directory (h : Ample storage) (shelf : Shelf) (artifact : Artifact) :
    FileTree.badText (storage.directory shelf artifact) = none := by
  have hshort := h.short
  exact Storage.badText_directory h.nulless (by omega) shelf artifact

theorem Storable.nul_not_mem_file (hrun : Storable run) (hnul : '\x00' ∉ storage.base.toList)
    (shelf : Shelf) (artifact : Artifact) : '\x00' ∉ (storage.file shelf artifact run).toList := by
  have hname : '\x00' ∉ (artifact.fileName run).toList := by
    rw [Artifact.fileName_toList]
    cases artifact <;> simp [hrun.nulless, Artifact.extension]
  rw [file_eq]
  exact nul_not_mem_joinPath (nul_not_mem_directory hnul shelf artifact) hname
    (Artifact.slash_not_mem_fileName hrun.slashless artifact)

theorem size_fileName (artifact : Artifact) (run : String) :
    (artifact.fileName run).utf8ByteSize =
      run.utf8ByteSize + 1 + artifact.extension.utf8ByteSize := by
  have hone : ".".utf8ByteSize = 1 := by decide
  rw [Artifact.fileName, String.utf8ByteSize_append, String.utf8ByteSize_append, hone]

theorem Storable.fits (hrun : Storable run) (h : Ample storage) : Fits storage run := by
  intro shelf artifact
  have hslash := Artifact.slash_not_mem_fileName hrun.slashless artifact
  have hname := size_fileName artifact run
  have hextension : artifact.extension.utf8ByteSize ≤ 4 := by cases artifact <;> decide
  have hshort := hrun.short
  have htext : FileTree.badText (storage.file shelf artifact run) = none := by
    have hdirectory := storage.size_directory_le shelf artifact
    have hfile := size_joinPath_le (storage.directory shelf artifact) hslash
    have hbase := h.short
    refine badText_eq_none (hrun.nul_not_mem_file h.nulless shelf artifact)
      (storage.file_ne_empty hrun.slashless shelf artifact) ?_
    rw [file_eq]
    omega
  have hlong : ¬ 255 < (artifact.fileName run).utf8ByteSize := by omega
  simp [nameFault, htext, FileTree.tooLong, hlong]

end Names

/-! ## The directories of a storage -/

/-- A base that is a directory with nothing in it, and on which everything may be written. -/
structure Fresh (storage : Storage) (tree : FileTree) (base : Path) : Prop where
  sound : tree.Sound
  willing : tree.Willing
  nulless : '\x00' ∉ storage.base.toList
  based : tree.walk [] (pathNames storage.base) = .ok base
  bare : ∀ rest, rest ≠ [] → tree.get? (base ++ rest) = none

/-- The base is a directory, and these directories and nothing else are below it. -/
structure Grown (storage : Storage) (tree : FileTree) (base : Path) (made : List Path) : Prop where
  sound : tree.Sound
  willing : tree.Willing
  based : tree.walk [] (FileTree.stepsOf storage.base) = .ok base
  below : ∀ rest, rest ≠ [] →
    tree.get? (base ++ rest) = if rest ∈ made then some .directory else none

section Opening

variable {storage : Storage} {tree : FileTree} {base : Path} {made : List Path}

theorem Fresh.grown (h : Fresh storage tree base) : Grown storage tree base [] := by
  refine ⟨h.sound, h.willing, ?_, ?_⟩
  · rw [FileTree.walk_stepsOf, h.based]
  · intro rest hrest
    simp [h.bare rest hrest]

theorem Grown.base_directory (h : Grown storage tree base made) :
    tree.get? base = some .directory := h.sound.directory_of_walk tree.get?_nil h.based

/-- One more directory, in the base or in one that is there. -/
theorem Grown.put (h : Grown storage tree base made) (up : Path) {directory : Path}
    {name : String} (hdirectory : directory = base ++ up) (hup : up = [] ∨ up ∈ made)
    (proper : FileTree.ProperName name) (hnew : up ++ [name] ∉ made) :
    tree.get? (directory ++ [name]) = none ∧
      Grown storage (tree.put (directory ++ [name]) .directory) base ((up ++ [name]) :: made) := by
  subst hdirectory
  have hfree : tree.get? (base ++ up ++ [name]) = none := by
    rw [List.append_assoc, h.below _ (by simp), if_neg hnew]
  have hparent : tree.get? (base ++ up) = some .directory := by
    by_cases hnil : up = []
    · rw [hnil, List.append_nil, h.base_directory]
    · rw [h.below up hnil, if_pos (hup.resolve_left hnil)]
  have hget := FileTree.get?_put tree (show base ++ up ++ [name] ≠ [] by simp) .directory
  refine ⟨hfree, h.sound.put_directory hparent proper hfree, ⟨h.willing.unlocked, h.willing.roomy⟩,
    ?_, ?_⟩
  · refine FileTree.walk_of_directories (fun p hp => ?_) h.based
    rw [hget, hp]
    split <;> rfl
  · intro rest hrest
    rw [hget, h.below rest hrest]
    by_cases hhere : rest = up ++ [name]
    · simp [hhere]
    · simp [hhere, List.append_assoc]

/-- What is below the base of a storage that has been opened on a bare directory. -/
def madeDirectories : List Path :=
  [["history", "logs"], ["history", "status"], ["history"], ["running"]]

/-- A bare directory becomes the base of a storage: one directory is made after the other, and the
history when the first one in it is wanted. -/
theorem Fresh.prepare_eq (h : Fresh storage tree base)
    (hshort : storage.base.utf8ByteSize + 18 ≤ 4095) :
    ∃ fresh, storage.prepare tree = .ok fresh ∧ Grown storage fresh base madeDirectories := by
  have hbase := h.grown
  have hnil := (List.append_nil base).symm
  have htext := badText_directory h.nulless hshort
  obtain ⟨hrunningFree, hrunning⟩ := hbase.put [] hnil (by simp) proper_running (by decide)
  obtain ⟨hhistoryFree, hhistory⟩ := hrunning.put [] hnil (by simp) proper_history (by decide)
  obtain ⟨hstatusFree, hstatus⟩ := hhistory.put ["history"] rfl (by decide) proper_status
    (by decide)
  obtain ⟨hlogsFree, hlogs⟩ := hstatus.put ["history"] rfl (by decide) proper_logs (by decide)
  have hsteps : FileTree.stepsOf storage.historyDir =
      FileTree.stepsOf storage.base ++ ["history"] :=
    FileTree.stepsOf_joinPath storage.base proper_history
  have hfirst := FileTree.makeDirectories_of_free (htext .running .program)
    (FileTree.stepsOf_joinPath _ proper_running) hbase.based proper_running hrunningFree
  -- the history is made with the first directory in it
  have hsecond := FileTree.makeDirectories_of_missing (htext .history .state)
    ((FileTree.stepsOf_joinPath _ proper_status).trans (by rw [hsteps]))
    (FileTree.walk_of_free hrunning.based proper_history hhistoryFree)
    (FileTree.makeAll_of_free hrunning.based proper_history hhistoryFree)
    (FileTree.walk_of_there hhistory.based proper_history (hhistory.below ["history"] (by simp)))
    proper_status hstatusFree
  have hthird := FileTree.makeDirectories_of_free (htext .history .log)
    ((FileTree.stepsOf_joinPath _ proper_logs).trans (by rw [hsteps]))
    (FileTree.walk_of_there hstatus.based proper_history (hstatus.below ["history"] (by simp)))
    proper_logs hlogsFree
  refine ⟨_, ?_, hlogs⟩
  unfold directory at hfirst hsecond hthird
  simp only [Storage.prepare, hfirst, hsecond, hthird, stored, Except.mapError, bind, Except.bind]

theorem spot_not_made (shelf : Shelf) (artifact : Artifact) (run : String) :
    shelf.names artifact ++ [artifact.fileName run] ∉ madeDirectories := by
  have hstatus : artifact.fileName run ≠ "status" := artifact.fileName_ne_of_dotless (by decide)
  have hlogs : artifact.fileName run ≠ "logs" := artifact.fileName_ne_of_dotless (by decide)
  cases shelf <;> cases artifact <;> simp [Shelf.names, madeDirectories, hstatus, hlogs]

/-- A storage opens on a bare directory: its directories are there then, and nothing is in the
place of a file of a run. -/
theorem Fresh.prepare (h : Fresh storage tree base)
    (hshort : storage.base.utf8ByteSize + 18 ≤ 4095) :
    ∃ fresh, storage.prepare tree = .ok fresh ∧ Tidy storage fresh base ∧ fresh.Willing ∧
      ∀ shelf artifact run, fresh.get? (spot base shelf artifact run) = none := by
  obtain ⟨fresh, hprepare, hgrown⟩ := h.prepare_eq hshort
  have hspot : ∀ shelf artifact run, fresh.get? (spot base shelf artifact run) = none := by
    intro shelf artifact run
    rw [spot, List.append_assoc, hgrown.below _ (by simp), if_neg (spot_not_made _ _ _)]
  refine ⟨fresh, hprepare, ⟨⟨hgrown.sound, ?_, ?_⟩, ?_⟩, hgrown.willing, hspot⟩
  · rw [← FileTree.walk_stepsOf, hgrown.based]
  · intro shelf artifact
    rw [hgrown.below _ (by cases shelf <;> cases artifact <;> simp [Shelf.names]), if_pos]
    cases shelf <;> cases artifact <;> decide
  · intro shelf artifact run
    simp [hspot]

end Opening
end Storage
end DryKiln
