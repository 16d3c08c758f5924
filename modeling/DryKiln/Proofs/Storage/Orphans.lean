-- The runs that a process leaves behind when it dies. A sweep finds all of them and takes nothing
-- else, whatever else lies on the two shelves, and there is nothing left for a second one to do.
-- The paths of their files must not be too long for the file system: a run whose program file
-- cannot be looked at is passed over, and one whose files cannot all be moved stops the sweep. A
-- state file that is not written stops nothing: its run goes into the history with what is in it.
import DryKiln.Proofs.Storage.TwoMaps

namespace DryKiln
namespace Storage

-- these are known by their laws, and nothing here looks into them
attribute [local irreducible] sweep cancelAll

/-- What a process may leave behind. The directories of the storage are there, that of the runs that
are going on holds nothing but files, and no directory is where a file of one of these runs goes. -/
structure LeftBehind (storage : Storage) (tree : FileTree) (base : Path) : Prop where
  laid : Laid storage tree base
  files : ∀ name, tree.get? (base ++ ["running"] ++ [name]) ≠ some .directory
  goals : ∀ run, Listed tree base .running run → ∀ artifact,
    tree.get? (spot base .history artifact run) ≠ some .directory

/-- No path is too long: neither that of the directory that is listed, nor that of a file of a run
in it. -/
structure Room (storage : Storage) (tree : FileTree) (base : Path) : Prop where
  directory : FileTree.badText (storage.directory .running .program) = none
  files : ∀ run, Listed tree base .running run → Fits storage run

/-- A sweep has taken all that was left behind, and nothing else. Each run is told to be canceled,
if that could be stored. -/
structure SweptAll (storage : Storage) (tree : FileTree) (base : Path) (runs : List String) :
    Prop where
  answer : (storage.sweep tree).2 = .ok runs
  sorted : runs.Pairwise (· < ·)
  complete : ∀ run, run ∈ runs ↔ Listed tree base .running run
  empty : storage.listRunning (storage.sweep tree).1 = .ok []
  cleared : ∀ run ∈ runs, ∀ artifact,
    (storage.sweep tree).1.get? (spot base .running artifact run) = none
  program : ∀ run ∈ runs, (storage.sweep tree).1.get? (spot base .history .program run) =
    tree.get? (spot base .running .program run)
  state : ∀ run ∈ runs, ∃ id contents, CanceledState tree base run id contents ∧
    (storage.sweep tree).1.get? (spot base .history .state run) = some (.file id contents)
  log : ∀ run ∈ runs, (storage.sweep tree).1.get? (spot base .history .log run) =
    (tree.get? (spot base .running .log run)).or (tree.get? (spot base .history .log run))
  told : ∀ run ∈ runs, Writable tree base run →
    Tells storage (storage.sweep tree).1 run .canceled
  elsewhere : ∀ p, (∀ run ∈ runs, ∀ shelf artifact, p ≠ spot base shelf artifact run) →
    (storage.sweep tree).1.get? p = tree.get? p
  again : storage.sweep (storage.sweep tree).1 = ((storage.sweep tree).1, .ok [])

section Orphans

variable {storage : Storage} {tree : FileTree} {base : Path} {run : String} {runs : List String}

/-! ## Names and paths of what was left behind -/

/-- A run that has its program file is one whose files can be held. -/
theorem Listed.storable (hs : tree.Sound) {shelf : Shelf} (h : Listed tree base shelf run) :
    Storable run := by
  obtain ⟨hempty, id, contents, hget⟩ := h
  have hname := hs.named _ _ _ hget
  have hsize := size_fileName .program run
  have hextension : Artifact.program.extension.utf8ByteSize = 4 := by decide
  have hshort : (Artifact.program.fileName run).utf8ByteSize ≤ 255 := by
    simpa [FileTree.tooLong] using hname.short
  refine ⟨hempty, slash_not_mem_of_get? hs hget, ?_, by omega⟩
  have hnul := hname.nulless
  rw [Artifact.fileName_toList] at hnul
  exact fun hmem => hnul (List.mem_append_left _ hmem)

/-- The path of a base that is there holds no NUL. -/
theorem Laid.nulless (h : Laid storage tree base) : '\x00' ∉ storage.base.toList := by
  intro hmem
  obtain ⟨name, hname, hnul⟩ := exists_mem_pathNames hmem (by decide)
  exact h.sound.nulless_of_walk h.based name hname hnul

theorem Laid.room (h : Laid storage tree base) (hshort : storage.base.utf8ByteSize ≤ 3825) :
    Room storage tree base := by
  have hample : Ample storage := ⟨h.nulless, hshort⟩
  exact ⟨hample.badText_directory .running .program,
    fun run hlisted => (hlisted.storable h.sound).fits hample⟩

theorem LeftBehind.plain (h : LeftBehind storage tree base)
    (hlisted : Listed tree base .running run) : Plain tree base run := by
  intro shelf artifact
  cases shelf with
  | running => exact h.files _
  | history => exact h.goals run hlisted artifact

/-! ## What is listed -/

theorem listRunning_eq (storage : Storage) (tree : FileTree) :
    storage.listRunning tree = runsIn tree (storage.directory .running .program) := rfl

theorem Laid.listRunning (h : Laid storage tree base)
    (hdirectory : FileTree.badText (storage.directory .running .program) = none) :
    ∃ runs, storage.listRunning tree = .ok runs ∧ runs.Pairwise (· < ·) ∧
      Lists storage tree base .running runs := by
  obtain ⟨runs, hruns, hlists⟩ := h.runsIn_eq hdirectory
  refine ⟨runs, (storage.listRunning_eq tree).trans hruns, ?_, hlists⟩
  exact ((runsIn_sorted hruns).and hlists.nodup).imp fun ⟨hle, hne⟩ => lt_of_le_of_ne hle hne

/-- Where no run is listed, a sweep has nothing to do. -/
theorem sweep_of_none (h : storage.listRunning tree = .ok []) :
    storage.sweep tree = (tree, .ok []) := by
  rw [sweep_of_ok h, cancelAll_nil]
  rfl

/-- Program files whose paths are all too long are not found. -/
theorem Laid.sweep_of_long (h : Laid storage tree base)
    (hdirectory : FileTree.badText (storage.directory .running .program) = none)
    (hlong : ∀ run, Listed tree base .running run →
      storage.nameFault .running .program run ≠ none) :
    storage.sweep tree = (tree, .ok []) := by
  obtain ⟨runs, hruns, _, hlists⟩ := h.listRunning hdirectory
  have hnone : runs = [] := by
    rw [List.eq_nil_iff_forall_not_mem]
    intro run hmem
    obtain ⟨hlisted, hfits⟩ := (hlists.mem_iff run).mp hmem
    exact hlong run hlisted hfits
  exact sweep_of_none (hnone ▸ hruns)

/-! ## The sweep -/

/-- A sweep answers without fault exactly if the files of all runs that it finds fit. -/
theorem LeftBehind.sweep (h : LeftBehind storage tree base)
    (hlists : Lists storage tree base .running runs) (hruns : storage.listRunning tree = .ok runs) :
    FileTree.Steady tree (storage.sweep tree).1 ∧
      ((storage.sweep tree).2 = .ok runs ↔ ∀ run ∈ runs, Fits storage run) ∧
      ((storage.sweep tree).2 = .ok runs → Swept tree (storage.sweep tree).1 base runs) := by
  obtain ⟨hsteady, hok, hswept⟩ := h.laid.cancelAll hlists.nodup
    (slash_not_mem_of_lists h.laid.sound hlists)
    fun run hmem => h.plain ((hlists.mem_iff run).mp hmem).1
  have hanswer : (storage.sweep tree).2 = .ok runs ↔ (storage.cancelAll tree runs).2 = .ok () := by
    rw [sweep_of_ok hruns]
    cases (storage.cancelAll tree runs).2 <;> simp [Except.map]
  have htree : (storage.sweep tree).1 = (storage.cancelAll tree runs).1 := by
    rw [sweep_of_ok hruns]
  rw [hanswer, htree]
  exact ⟨hsteady, hok, hswept⟩

/-- What was not swept has no program file where a second sweep looks. -/
theorem Swept.listed_none {next : FileTree} (h : Swept tree next base runs)
    (hruns : ∀ run, Listed tree base .running run → run ∈ runs) :
    ¬ Listed next base .running run := by
  rintro ⟨hempty, id, contents, hget⟩
  by_cases hmem : run ∈ runs
  · cases (h.running run hmem .program).symm.trans hget
  · rw [h.elsewhere _ fun other hother _ _ => spot_ne_of_run ?_ _ _ _ _] at hget
    · exact hmem (hruns run ⟨hempty, id, contents, hget⟩)
    · rintro rfl
      exact hmem hother

theorem LeftBehind.sweptAll (h : LeftBehind storage tree base) (hroom : Room storage tree base) :
    ∃ runs, SweptAll storage tree base runs := by
  obtain ⟨runs, hruns, hsorted, hlists⟩ := h.laid.listRunning hroom.directory
  have hcomplete : ∀ run, run ∈ runs ↔ Listed tree base .running run := by
    intro run
    rw [hlists.mem_iff, and_iff_left_iff_imp]
    exact fun hlisted => hroom.files run hlisted .running .program
  have hfits : ∀ run ∈ runs, Fits storage run :=
    fun run hmem => hroom.files run ((hcomplete run).mp hmem)
  obtain ⟨hsteady, hok, hswept⟩ := h.sweep hlists hruns
  have hanswer := hok.mpr hfits
  have hall := hswept hanswer
  have hlaid := h.laid.congr hsteady
  have hprogram : ∀ run ∈ runs, (storage.sweep tree).1.get? (spot base .history .program run) =
      tree.get? (spot base .running .program run) := by
    intro run hmem
    obtain ⟨_, id, contents, hget⟩ := (hcomplete run).mp hmem
    rw [hall.program run hmem, hget, Option.some_or]
  have hempty : storage.listRunning (storage.sweep tree).1 = .ok [] := by
    obtain ⟨left, hleft, _, hlistsLeft⟩ := hlaid.listRunning hroom.directory
    have hnone : left = [] := by
      rw [List.eq_nil_iff_forall_not_mem]
      intro run hmem
      exact hall.listed_none (fun other => (hcomplete other).mpr)
        ((hlistsLeft.mem_iff run).mp hmem).1
    exact hnone ▸ hleft
  refine ⟨runs, hanswer, hsorted, hcomplete, hempty, hall.running, hprogram, hall.state, hall.log,
    ?_, hall.elsewhere, sweep_of_none hempty⟩
  intro run hmem hwritable
  have hlisted := (hcomplete run).mp hmem
  have hstorable := hlisted.storable h.laid.sound
  obtain ⟨_, id, contents, hget⟩ := hlisted
  obtain ⟨_, hstate⟩ := hall.canceled hmem hwritable
  exact hlaid.tells hstorable.slashless hstorable.nonempty (hfits run hmem .history)
    ((hprogram run hmem).trans hget) hstate

/-- A sweep that answers with all runs that were left behind has had room for them. -/
theorem LeftBehind.room_of_ok (h : LeftBehind storage tree base)
    (hok : (storage.sweep tree).2 = .ok runs)
    (hall : ∀ run, Listed tree base .running run → run ∈ runs) : Room storage tree base := by
  cases hdirectory : FileTree.badText (storage.directory .running .program) with
  | some fault =>
    rw [sweep_of_error ((storage.listRunning_eq tree).trans (runsIn_of_badText hdirectory))] at hok
    cases hok
  | none =>
    obtain ⟨found, hfound, _, hlists⟩ := h.laid.listRunning hdirectory
    obtain rfl : found = runs := by
      rw [sweep_of_ok hfound] at hok
      cases hresult : (storage.cancelAll tree found).2 <;> simp_all [Except.map]
    obtain ⟨_, hiff, _⟩ := h.sweep hlists hfound
    exact ⟨hdirectory, fun run hlisted => hiff.mp hok run (hall run hlisted)⟩

/-- A sweep takes all runs that were left behind, cancels those whose state can be stored, changes
nothing else and leaves nothing for a second sweep, if the paths of their files are not too long;
and only then does it answer with all of them. A base whose path has at most 3825 bytes leaves room
for every run. -/
theorem all_left_behind_are_swept_iff (h : LeftBehind storage tree base) :
    (Room storage tree base → ∃ runs, SweptAll storage tree base runs) ∧
      ((∃ runs, (storage.sweep tree).2 = .ok runs ∧
        ∀ run, Listed tree base .running run → run ∈ runs) → Room storage tree base) ∧
      (storage.base.utf8ByteSize ≤ 3825 → Room storage tree base) := by
  refine ⟨h.sweptAll, ?_, h.laid.room⟩
  rintro ⟨runs, hok, hall⟩
  exact h.room_of_ok hok hall

end Orphans

/-- Two runs that were left behind, one with a log and a name that is that of the other with a dot
more; a state without a program, a note, and an older program in the history. -/
def strewnTree : FileTree where
  entries := bareTree.entries ++
    [(["running", "oak.json"], .file 0 (.text "oak")),
      (["running", "oak.2.json"], .file 1 (.text "oak again")),
      (["running", "oak.2.csv"], .file 2 (.text "time,step\n")),
      (["running", "ash.txt"], .file 3 (.text "running")),
      (["running", "json"], .file 4 (.text "note")),
      (["history", "oak.json"], .file 5 (.text "old oak"))]
  nextId := 6

theorem leftBehind_strewnTree : LeftBehind ⟨""⟩ strewnTree [] := by
  have hlaid : Laid ⟨""⟩ strewnTree [] := by
    refine ⟨by decide, rfl, fun shelf artifact => ?_⟩
    cases shelf <;> cases artifact <;> decide
  refine ⟨hlaid, fun name hget => ?_, fun run _ artifact => (hlaid.tidy (by decide)).plain _ _ _⟩
  have hmem := (hlaid.sound.mem_iff (by simp) .directory).mpr hget
  simp [strewnTree, bareTree] at hmem

theorem strewn_runs_are_swept :
    LeftBehind ⟨""⟩ strewnTree [] ∧
      ∃ runs, SweptAll ⟨""⟩ strewnTree [] runs ∧ "oak" ∈ runs ∧ "oak.2" ∈ runs ∧ "ash" ∉ runs ∧
        Tells ⟨""⟩ (Storage.sweep ⟨""⟩ strewnTree).1 "oak" .canceled := by
  obtain ⟨hroom, _, hshort⟩ := all_left_behind_are_swept_iff leftBehind_strewnTree
  obtain ⟨runs, hswept⟩ := hroom (hshort (by decide))
  have hoak : "oak" ∈ runs := (hswept.complete _).mpr ⟨by decide, 0, .text "oak", by decide⟩
  refine ⟨leftBehind_strewnTree, runs, hswept, hoak, ?_, ?_,
    hswept.told _ hoak (.of_willing ⟨rfl, rfl⟩ _ _)⟩
  · exact (hswept.complete _).mpr ⟨by decide, 1, .text "oak again", by decide⟩
  · rw [hswept.complete]
    rintro ⟨_, id, contents, hget⟩
    have hnone : strewnTree.get? (spot [] .running .program "ash") = none := by decide
    cases hnone.symm.trans hget

/-! ## A base without room -/

/-- A run with as long a name as a run may have, and nothing but its program file. -/
def longNameTree : FileTree :=
  (bareTree.addFile (["running"] ++ [Artifact.program.fileName longName]) (.text "p")).1

theorem holds_longNameTree :
    FileTree.Holds bareTree ["running"] (Artifact.program.fileName longName) 0 (.text "p")
      longNameTree := by
  have hfits : nameFault ⟨""⟩ .running .program longName = none :=
    storable_longName.fits ⟨by decide, by decide⟩ .running .program
  exact FileTree.holds_addFile (by decide) (by decide)
    (proper_of_nameFault storable_longName.slashless hfits) (.text "p")

theorem leftBehind_longNameTree : LeftBehind longBase longNameTree [] := by
  have hholds := holds_longNameTree
  obtain ⟨hdistinct, hrooted⟩ := laid_bareTree.sound.put_entries
    (List.append_ne_nil_of_right_ne_nil ["running"] (List.cons_ne_nil _ []))
    (.file 0 (.text "p"))
  have hsound := laid_bareTree.sound.holds hholds hdistinct hrooted
  refine ⟨⟨hsound, walk_slashed _ 3840, fun shelf artifact => ?_⟩, fun name hget => ?_,
    fun run _ artifact hget => ?_⟩
  · exact (hholds.directory_iff _).mpr (laid_bareTree.there shelf artifact)
  · have hbare := (hholds.directory_iff _).mp hget
    have hmem := (laid_bareTree.sound.mem_iff (by simp) .directory).mpr hbare
    simp [bareTree] at hmem
  · exact (laid_bareTree.tidy (by decide)).plain _ _ _ ((hholds.directory_iff _).mp hget)

theorem listed_longNameTree {run : String} (h : Listed longNameTree [] .running run) :
    run = longName := by
  obtain ⟨_, id, contents, hget⟩ := h
  by_cases hhere : spot [] .running .program run = spot [] .running .program longName
  · exact (spot_inj hhere).2.2
  · rw [holds_longNameTree.elsewhere hhere] at hget
    have hmem := (laid_bareTree.sound.mem_iff (by simp [spot]) _).mpr hget
    simp [bareTree] at hmem

/-- Where the path of the base takes the room, a sweep answers that no run was left behind, and
leaves one behind. -/
theorem long_base_hides_a_run :
    LeftBehind longBase longNameTree [] ∧ Listed longNameTree [] .running longName ∧
      longBase.sweep longNameTree = (longNameTree, .ok []) := by
  have hsize : longName.utf8ByteSize = 250 := by decide +kernel
  have hbase : longBase.base.utf8ByteSize = 3841 := size_slashed 3840
  have hnul : '\x00' ∉ longBase.base.toList := nul_not_mem_slashed 3840
  refine ⟨leftBehind_longNameTree,
    ⟨storable_longName.nonempty, 0, .text "p", holds_longNameTree.here⟩, ?_⟩
  refine leftBehind_longNameTree.laid.sweep_of_long
    (badText_directory hnul (by rw [hbase]; decide) .running .program) ?_
  intro run hrun
  rw [listed_longNameTree hrun,
    storable_longName.nameFault_of_long hnul (by rw [hbase, hsize]; decide)]
  simp

end Storage
end DryKiln
